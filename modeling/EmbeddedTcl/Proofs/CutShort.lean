import EmbeddedTcl.Proofs.Termination

/-!
# Runs cut short

The two limits are looked at in one place, where a command is about to be run. So two machines that
differ in their limits alone make the same steps, until the one with the lower limits refuses a
command that the other one runs. From then on it does nothing but give up, and the other one goes
on. Output is never taken back, so whatever the first one had written the second one has written
too.
-/

namespace EmbeddedTcl

variable {H : Type}

/-! ## Limits and what they refuse -/

instance : LE Limits :=
  ⟨fun l l' => l.maxCommands ≤ l'.maxCommands ∧ l.maxDepth ≤ l'.maxDepth⟩

/-- The faults by which a limit ends an evaluation. -/
def Limits.Refuses (l : Limits) (fault : Fault) : Prop :=
  fault = .script l.commandsError ∨ fault = .script l.depthError

/-! ## What has been written -/

theorem State.output_write (st : State H) (text : String) :
    (st.write text).output = if st.stream.isSome then st.output else st.output ++ text := by
  unfold State.write
  cases st.stream <;> rfl

theorem State.stream_write (st : State H) (text : String) :
    (st.write text).stream = st.stream.map (· ++ text) := by
  unfold State.write
  split <;> simp_all

/-- `text` was written on the way from `st` to `st'`: it went to the stream if there is one, and is
kept otherwise. -/
structure State.Wrote (st : State H) (text : String) (st' : State H) : Prop where
  output : st'.output = (st.write text).output
  stream : st'.stream = (st.write text).stream

namespace State.Wrote

variable {st st' st'' : State H} {text more : String}

/-- Nothing is written where output and stream stay as they are. -/
theorem silent (houtput : st'.output = st.output) (hstream : st'.stream = st.stream) :
    st.Wrote "" st' := by
  constructor
  · rw [houtput, State.output_write, String.append_empty, ite_self]
  · rw [hstream, State.stream_write]
    cases st.stream <;> simp

theorem refl (st : State H) : st.Wrote "" st :=
  silent rfl rfl

theorem trans (h : st.Wrote text st') (h' : st'.Wrote more st'') :
    st.Wrote (text ++ more) st'' := by
  obtain ⟨houtput, hstream⟩ := h
  obtain ⟨houtput', hstream'⟩ := h'
  rw [State.output_write] at houtput houtput'
  rw [State.stream_write] at hstream hstream'
  constructor
  · rw [State.output_write, houtput', houtput, hstream, Option.isSome_map]
    split
    · rfl
    · exact String.append_assoc ..
  · rw [State.stream_write, hstream', hstream]
    cases st.stream <;> simp [String.append_assoc]

/-- What was written does not depend on how else the first state may differ. -/
theorem congr_left (h : st.Wrote text st'') (houtput : st'.output = st.output)
    (hstream : st'.stream = st.stream) : st'.Wrote text st'' := by
  constructor
  · rw [h.output, State.output_write, State.output_write, houtput, hstream]
  · rw [h.stream, State.stream_write, State.stream_write, hstream]

end State.Wrote

theorem Builtin.Does.wrote {b : Builtin} {st : State H} {o : Outcome H String}
    (h : b.Does st o) : ∃ text, st.Wrote text o.2 := by
  cases h with
  | links names =>
      obtain ⟨stack, log, heq, _⟩ := linkGlobals_eq names st
      rw [heq]
      exact ⟨"", .silent rfl rfl⟩
  | writes text => exact ⟨text, rfl, rfl⟩
  | _ => exact ⟨"", .silent rfl rfl⟩

/-! ## Two machines -/

namespace Machine

variable {limits limits' : Limits}

/-- A machine whose state was reached from `st` by writing, if anything. -/
def Writes (st : State Empty) (m : Machine) : Prop :=
  ∃ text, st.Wrote text m.state

theorem deliver_state (completion : Completion) (caller : Caller) (callers : List Caller)
    (st : State Empty) :
    ∃ pending,
      (deliver completion caller callers st).state = { st with pendingReturn := pending } := by
  unfold deliver
  split
  · split <;> exact ⟨st.pendingReturn, rfl⟩
  · exact ⟨_, rfl⟩

theorem answer_writes (caller : Caller) (callers : List Caller) (o : Outcome Empty Completion) :
    Writes o.2 (answer caller callers o) := by
  obtain ⟨fault | completion, st⟩ := o
  · exact ⟨"", .refl st⟩
  · obtain ⟨pending, heq⟩ := deliver_state completion caller callers st
    refine ⟨"", ?_⟩
    rw [answer, heq]
    exact .silent rfl rfl

theorem invoke_writes (args : List String) (caller : Caller) (callers : List Caller)
    (st : State Empty) (handler : Handler Empty) :
    Writes st (invoke args caller callers st handler) := by
  cases handler with
  | builtin b =>
      obtain ⟨text, hwrote⟩ := (b.run_does args st).wrote
      have hleave : (b.run args st).2.Wrote "" (b.run args st).2.leave := .silent rfl rfl
      obtain ⟨more, hanswer⟩ := answer_writes caller callers
        ((b.run args st).1.map fun text => ⟨text, (b.run args st).2.returnFlag⟩,
          (b.run args st).2.leave)
      exact ⟨_, (hwrote.trans hleave).trans hanswer⟩
  | procedure p => exact ⟨"", .silent rfl rfl⟩
  | host h => exact h.elim

theorem call_writes (limits : Limits) (words : List String) (caller : Caller)
    (callers : List Caller) (st : State Empty) :
    Writes st (call limits words caller callers st) := by
  cases words with
  | nil => exact ⟨"", .refl st⟩
  | cons name args =>
      rw [call]
      cases st.commands.find? name with
      | none => exact ⟨"", .refl st⟩
      | some handler =>
          dsimp only
          split
          · exact ⟨"", .silent rfl rfl⟩
          split
          · exact ⟨"", .silent rfl rfl⟩
          · obtain ⟨text, hwrote⟩ := invoke_writes args caller callers
              (st.counted.note (.dispatching name args st.stack.depth)).inside handler
            exact ⟨text, hwrote.congr_left rfl rfl⟩

theorem perform_writes (limits : Limits) (words : List String) (r : Reader)
    (callers : List Caller) (st : State Empty) :
    Writes st (perform limits words r callers st) := by
  unfold perform
  split
  · split
    · exact ⟨"", .silent rfl rfl⟩
    · exact ⟨"", .refl st⟩
  · obtain ⟨text, hwrote⟩ := call_writes limits words ⟨r, st.pendingReturn⟩ callers
      { st with pendingReturn := false }
    exact ⟨text, hwrote.congr_left rfl rfl⟩

/-- A step adds to what has been written, and takes nothing back. -/
theorem step_writes (limits : Limits) (m : Machine) : Writes m.state (m.step limits) := by
  match m with
  | reading r callers st =>
      rw [step]
      cases r.step with
      | go r' => exact ⟨"", .refl st⟩
      | lookup name r' =>
          rw [act]
          cases st.lookup name <;> exact ⟨"", .refl st⟩
      | run words r' => exact perform_writes limits words r' callers st
      | fail error => exact ⟨"", .refl st⟩
      | finish completion => exact ⟨"", .refl st⟩
  | ending completion [] st => exact ⟨"", .refl st⟩
  | ending completion (caller :: callers) st =>
      obtain ⟨pending, heq⟩ :=
        deliver_state ⟨completion.value, st.returnFlag⟩ caller callers st.leave
      refine ⟨"", ?_⟩
      rw [step, heq]
      exact .silent rfl rfl
  | failing fault [] st => exact ⟨"", .refl st⟩
  | failing fault (caller :: callers) st => exact ⟨"", .silent rfl rfl⟩
  | halted outcome => exact ⟨"", .refl outcome.2⟩

theorem run_writes (limits : Limits) (n : Nat) :
    ∀ m : Machine, Writes m.state (m.run limits n) := by
  induction n with
  | zero => exact fun m => ⟨"", .refl m.state⟩
  | succ n ih =>
      intro m
      obtain ⟨text, hstep⟩ := step_writes limits m
      obtain ⟨more, hrun⟩ := ih (m.step limits)
      exact ⟨text ++ more, hstep.trans hrun⟩

/-- A machine that a limit has stopped. -/
inductive Stopped (limits : Limits) : Machine → Prop where
  | failing {fault : Fault} (refused : limits.Refuses fault) (callers : List Caller)
      (st : State Empty) : Stopped limits (failing fault callers st)
  | halted {fault : Fault} (refused : limits.Refuses fault) (st : State Empty) :
      Stopped limits (halted (.error fault, st))

/-- Two machines side by side: they are the same, or the first one was stopped by its limits and the
second one has gone on and written some more. -/
inductive Alongside (limits : Limits) : Machine → Machine → Prop where
  | same (m : Machine) : Alongside limits m m
  | ahead {m m' : Machine} (stopped : m.Stopped limits) (writes : Writes m.state m') :
      Alongside limits m m'

/-- A machine that was stopped only unwinds. -/
theorem Stopped.step {m : Machine} (h : m.Stopped limits) :
    (m.step limits).Stopped limits ∧ (m.step limits).state.output = m.state.output ∧
      (m.step limits).state.stream = m.state.stream := by
  cases h with
  | failing refused callers st =>
      cases callers with
      | nil => exact ⟨.halted refused st, rfl, rfl⟩
      | cons caller callers => exact ⟨.failing refused callers st.leave, rfl, rfl⟩
  | halted refused st => exact ⟨.halted refused st, rfl, rfl⟩

/-- A command that the lower limits allow is run in the same way under both. -/
theorem call_alongside (hle : limits ≤ limits') (words : List String) (caller : Caller)
    (callers : List Caller) (st : State Empty) :
    Alongside limits (call limits words caller callers st)
      (call limits' words caller callers st) := by
  obtain ⟨hcommands, hdepth⟩ := hle
  obtain ⟨text, hwrote⟩ := call_writes limits' words caller callers st
  have hcounted : st.counted.Wrote text (call limits' words caller callers st).state :=
    hwrote.congr_left rfl rfl
  cases words with
  | nil => exact .same _
  | cons name args =>
      simp only [call] at hcounted ⊢
      cases hfind : st.commands.find? name with
      | none => exact .same _
      | some handler =>
          simp only [hfind] at hcounted ⊢
          by_cases hcount : st.counted.commandCount > limits.maxCommands
          · rw [if_pos hcount]
            exact .ahead (.failing (.inl rfl) callers st.counted) ⟨text, hcounted⟩
          have hcount' : ¬ st.counted.commandCount > limits'.maxCommands :=
            fun h => hcount (Int.lt_of_le_of_lt hcommands h)
          rw [if_neg hcount'] at hcounted ⊢
          rw [if_neg hcount]
          by_cases hfull : limits.maxDepth ≤ st.stack.depth
          · rw [if_pos hfull]
            exact .ahead (.failing (.inr rfl) callers st.counted) ⟨text, hcounted⟩
          have hfull' : ¬ limits'.maxDepth ≤ st.stack.depth :=
            fun h => hfull (Int.le_trans hdepth h)
          rw [if_neg hfull, if_neg hfull']
          exact .same _

theorem perform_alongside (hle : limits ≤ limits') (words : List String) (r : Reader)
    (callers : List Caller) (st : State Empty) :
    Alongside limits (perform limits words r callers st) (perform limits' words r callers st) := by
  unfold perform
  split
  · exact .same _
  · exact call_alongside hle words _ callers _

theorem step_alongside (hle : limits ≤ limits') {m m' : Machine} (h : Alongside limits m m') :
    Alongside limits (m.step limits) (m'.step limits') := by
  cases h with
  | ahead stopped writes =>
      obtain ⟨hstopped, houtput, hstream⟩ := stopped.step
      obtain ⟨text, hwrote⟩ := writes
      obtain ⟨more, hmore⟩ := step_writes limits' m'
      exact .ahead hstopped ⟨text ++ more, (hwrote.trans hmore).congr_left houtput hstream⟩
  | same =>
      match m with
      | reading r callers st =>
          rw [step, step]
          cases r.step with
          | run words r' => exact perform_alongside hle words r' callers st
          | _ => exact .same _
      | ending completion [] st => exact .same _
      | ending completion (caller :: callers) st => exact .same _
      | failing fault [] st => exact .same _
      | failing fault (caller :: callers) st => exact .same _
      | halted outcome => exact .same _

theorem run_alongside (hle : limits ≤ limits') (n : Nat) :
    ∀ {m m' : Machine}, Alongside limits m m' →
      Alongside limits (m.run limits n) (m'.run limits' n) := by
  induction n with
  | zero => exact fun h => h
  | succ n ih => exact fun h => ih (step_alongside hle h)

theorem run_halted (limits : Limits) (outcome : Outcome Empty Completion) (n : Nat) :
    (halted outcome).run limits n = halted outcome := by
  induction n with
  | zero => rfl
  | succ n ih => exact ih

/-- A machine that halts stays as it is, so two that halt have both done so after some number of
steps. -/
theorem Leads.halted_alongside {m : Machine} {o o' : Outcome Empty Completion}
    (hle : limits ≤ limits') (h : Leads limits m (halted o)) (h' : Leads limits' m (halted o')) :
    Alongside limits (halted o) (halted o') := by
  obtain ⟨n, hn⟩ := h
  obtain ⟨n', hn'⟩ := h'
  have hrun := run_alongside hle (n + n') (Alongside.same m)
  rw [run_add, hn, run_halted] at hrun
  rwa [Nat.add_comm, run_add, hn', run_halted] at hrun

end Machine

/-- **Limits only cut runs short.** Take the same script and the same state under two limits, the
one no higher than the other. Either both evaluations give the same value or fault and end in the
same state, or the one under the lower limits is ended by one of them; and what it had written until
then is the beginning of what the other one writes. -/
theorem lower_limits_only_cut_short (env : Env Empty) (limits' : Limits)
    (hle : env.limits ≤ limits') (script : String) (st : State Empty) :
    let o := env.evaluate script st
    let o' := ({ env with limits := limits' } : Env Empty).evaluate script st
    o = o' ∨
      (o.1 = .error (.script env.limits.commandsError) ∨
        o.1 = .error (.script env.limits.depthError)) ∧
      ∃ text more, st.Wrote text o.2 ∧ st.Wrote (text ++ more) o'.2 := by
  intro o o'
  let env' : Env Empty := { env with limits := limits' }
  let clear : State Empty := { st with pendingReturn := false }
  have ho : o = Outcome.map Completion.value (env.evaluateScript script clear) :=
    env.evaluate_eq script st
  have ho' : o' = Outcome.map Completion.value (env'.evaluateScript script clear) :=
    env'.evaluate_eq script st
  have hleads := Machine.start_leads env script st
  have hboth := hleads.halted_alongside hle (Machine.start_leads env' script st)
  obtain ⟨n, hhalt⟩ := hleads
  obtain ⟨text, hwrote⟩ := Machine.run_writes env.limits n (Machine.start script st)
  rw [hhalt] at hwrote
  have htext : st.Wrote text (env.evaluateScript script clear).2 := hwrote.congr_left rfl rfl
  rw [ho, ho', Outcome.snd_map, Outcome.snd_map]
  generalize env.evaluateScript script clear = e at hboth htext ⊢
  generalize env'.evaluateScript script clear = e' at hboth ⊢
  cases hboth with
  | same => exact .inl rfl
  | ahead stopped writes =>
      obtain ⟨more, hmore⟩ := writes
      refine .inr ⟨?_, text, more, htext, htext.trans hmore⟩
      cases stopped with
      | halted refused st' =>
          rcases refused with rfl | rfl
          · exact .inl rfl
          · exact .inr rfl

/-- A procedure that writes and calls itself: the lower limit ends it in its fourth call, the higher
ones when twelve commands have been run. -/
theorem lower_limits_cut_recursion_short :
    let env : Env Empty :=
      { limits := { maxCommands := 12, maxDepth := 5 }, host := nofun, fresh := {} }
    let limits' : Limits := { maxCommands := 12 }
    let st : State Empty := { commands := Builtin.table }
    let script := "proc f x \x7bputs -nonewline a; f\x7d; f"
    let o := env.evaluate script st
    let o' := ({ env with limits := limits' } : Env Empty).evaluate script st
    env.limits ≤ limits' ∧ o.2.output = "aaa" ∧ o'.2.output = "aaaaa" ∧
    (o.1 = .error (.script env.limits.commandsError) ∨
      o.1 = .error (.script env.limits.depthError)) ∧
    ∃ text more, st.Wrote text o.2 ∧ st.Wrote (text ++ more) o'.2 := by
  intro env limits' st script o o'
  have hle : env.limits ≤ limits' := ⟨by decide, by decide⟩
  have houtput : o.2.output = "aaa" := by decide +kernel
  have houtput' : o'.2.output = "aaaaa" := by decide +kernel
  refine ⟨hle, houtput, houtput', ?_⟩
  rcases lower_limits_only_cut_short env limits' hle script st with hsame | hcut
  · have hsame' : o.2.output = o'.2.output := congrArg (fun e => e.2.output) hsame
    rw [houtput, houtput'] at hsame'
    exact absurd hsame' (by decide)
  · exact hcut

end EmbeddedTcl
