import EmbeddedTcl.Proofs.Scoping

/-!
# Calls in isolation

A procedure runs in a scope of its own and reaches the global one by links. The scopes of the calls
in between are there, but nothing that runs can tell: what a call does is the same on top of any
other calls, and it leaves their scopes as they were. Only the limit on nested calls counts them.
-/

namespace EmbeddedTcl

/-! ## A stack of scopes on top of another -/

namespace ScopeStack

/-- The calls of `s` on top of other ones. -/
def above (s : ScopeStack) (outer : List Scope) : ScopeStack :=
  { s with locals := s.locals ++ outer }

/-- The level that a level of `s` has on top of `outer`. The global scope stays where it is. -/
def raise (outer : List Scope) : Nat → Nat
  | 0 => 0
  | k + 1 => outer.length + k + 1

variable (s : ScopeStack) (outer : List Scope)

theorem top_above (h : 2 ≤ s.depth) : (s.above outer).top = raise outer s.top := by
  obtain ⟨globals, locals⟩ := s
  cases locals with
  | nil => exact absurd h (by simp [depth])
  | cons scope more =>
      simp only [above, top, raise, List.length_append, List.length_cons]
      omega

theorem caller_above (h : 3 ≤ s.depth) : (s.above outer).caller = raise outer s.caller := by
  obtain ⟨globals, locals⟩ := s
  match locals with
  | [] => exact absurd h (by simp [depth])
  | [scope] => exact absurd h (by simp [depth])
  | scope :: caller :: more =>
      simp only [above, ScopeStack.caller, raise, List.length_append, List.length_cons,
        Nat.add_sub_cancel]
      omega

theorem drop_above (h : 2 ≤ s.depth) : (s.above outer).drop = s.drop.above outer := by
  obtain ⟨globals, locals⟩ := s
  cases locals with
  | nil => exact absurd h (by simp [depth])
  | cons scope more => rfl

theorem scope?_above (level : Nat) :
    (s.above outer).scope? (raise outer level) = s.scope? level := by
  cases level with
  | zero => rfl
  | succ k =>
      simp [raise, scope?, toList, above, List.reverse_append, List.getElem?_append_right]

theorem slot?_above (level : Nat) (name : String) :
    (s.above outer).slot? (raise outer level) name = s.slot? level name := by
  rw [slot?, scope?_above, slot?]

theorem modify_above (level : Nat) (f : Scope → Scope) :
    (s.above outer).modify (raise outer level) f = (s.modify level f).above outer := by
  cases level with
  | zero => rfl
  | succ k =>
      have hmodify : (outer.reverse ++ s.locals.reverse).modify (outer.length + k) f =
          outer.reverse ++ s.locals.reverse.modify k f := by
        have hlength : outer.reverse.length = outer.length := List.length_reverse
        rw [← hlength]
        exact List.modifyTailIdx_add _ _ _ _
      simp only [raise, modify, above, List.reverse_append, hmodify, List.reverse_reverse]

/-- Names linked to the global scope are found there from wherever the calls stand. -/
theorem resolve_above {s : ScopeStack} (h : s.Scoped) (outer : List Scope) (level : Nat)
    (name : String) :
    (s.above outer).resolve (raise outer level) name =
      (s.resolve level name).map fun home => (raise outer home.1, home.2) := by
  have hslot := s.slot?_above outer level name
  by_cases hlink : ∃ frame target, s.slot? level name = some (.link frame target)
  · obtain ⟨frame, target, heq⟩ := hlink
    obtain ⟨rfl, rfl⟩ := h.links heq
    have hplace : ∀ t : ScopeStack, place? t.depth 0 = some 0 := fun t => by simp [place?, depth]
    rw [resolve_link (hslot.trans heq) (hplace _), resolve_link heq (hplace s)]
    rfl
  · have hown : ∀ frame target, s.slot? level name ≠ some (.link frame target) :=
      fun frame target heq => hlink ⟨frame, target, heq⟩
    rw [resolve_own (hslot ▸ hown), resolve_own hown]
    rfl

theorem get_above {s : ScopeStack} (h : s.Scoped) (outer : List Scope) (level : Nat)
    (name : String) : (s.above outer).get (raise outer level) name = s.get level name := by
  rw [get, get, resolve_above h]
  cases s.resolve level name with
  | error fault => rfl
  | ok home =>
      simp only [Except.map, read?, scope?_above]

theorem set_above {s : ScopeStack} (h : s.Scoped) (outer : List Scope) (level : Nat)
    (name text : String) :
    (s.above outer).set (raise outer level) name text =
      (s.set level name text).map (·.above outer) := by
  rw [set, set, resolve_above h]
  cases s.resolve level name with
  | error fault => rfl
  | ok home => simp only [Except.map, modify_above]

theorem link_above (level : Nat) (name : String) :
    (s.above outer).link (raise outer level) name 0 none =
      (s.link level name 0 none).above outer := by
  rw [link, link, modify_above]
  cases level with
  | zero => rfl
  | succ k => simp only [raise, scopeLink_global]

theorem bind_above (h : 2 ≤ s.depth) (params args : List String) :
    (s.above outer).bind params args = (s.bind params args).above outer := by
  rw [bind, top_above s outer h, modify_above]
  rfl

end ScopeStack

/-! ## A state on top of other calls -/

variable {H : Type}

namespace State

/-- A state with other calls below its own. What was logged on the way may differ too, since the log
tells levels. -/
def above (st : State H) (outer : List Scope) (log : List LogEntry) : State H :=
  { st with stack := st.stack.above outer, log := log }

theorem lookup_above {st : State H} (h : st.stack.Scoped) (hdepth : 2 ≤ st.stack.depth)
    (outer : List Scope) (log : List LogEntry) (name : String) :
    (st.above outer log).lookup name = st.lookup name := by
  have htop : (st.above outer log).stack.top = _ := st.stack.top_above outer hdepth
  rw [lookup, htop]
  exact ScopeStack.get_above h outer _ name

theorem write_above (st : State H) (outer : List Scope) (log : List LogEntry) (text : String) :
    (st.above outer log).write text = (st.write text).above outer log := by
  unfold write above
  cases st.stream <;> rfl

end State

namespace Builtin

theorem linkGlobals_above (names : List String) (outer : List Scope) :
    ∀ (st : State H) (log : List LogEntry), 3 ≤ st.stack.depth →
      ∃ log', linkGlobals (st.above outer log) names = (linkGlobals st names).above outer log' := by
  induction names with
  | nil => exact fun st log _ => ⟨log, rfl⟩
  | cons name more ih =>
      intro st log hdepth
      have hcaller := st.stack.caller_above outer hdepth
      have hlink := st.stack.link_above outer st.stack.caller name
      rw [← hcaller] at hlink
      -- the first name by itself, then the others from there
      let entry := LogEntry.linking name (st.stack.above outer).caller
      have hfirst : linkGlobals (st.above outer log) [name] =
          (linkGlobals st [name]).above outer (entry :: log) :=
        congrArg (fun stack => { st.above outer (entry :: log) with stack }) hlink
      have hdepth' : 3 ≤ (linkGlobals st [name]).stack.depth := by
        show 3 ≤ (st.stack.link st.stack.caller name 0 none).depth
        rwa [ScopeStack.depth_link]
      obtain ⟨log', hmore⟩ := ih (linkGlobals st [name]) (entry :: log) hdepth'
      refine ⟨log', ?_⟩
      rw [← hfirst] at hmore
      exact hmore

/-- A built-in does the same on top of other calls: it looks at its caller's scope and the global
one only. -/
theorem run_above (b : Builtin) (args : List String) {st : State H} (h : st.stack.Scoped)
    (hdepth : 3 ≤ st.stack.depth) (outer : List Scope) (log : List LogEntry) :
    ∃ log', b.run args (st.above outer log) =
      ((b.run args st).1, (b.run args st).2.above outer log') := by
  have hcaller : (st.above outer log).stack.caller = _ := st.stack.caller_above outer hdepth
  unfold run
  split
  case h_1 name =>
    refine ⟨log, Prod.ext ?_ rfl⟩
    rw [hcaller]
    exact ScopeStack.get_above h outer _ name
  case h_2 name text =>
    have hset : (st.above outer log).stack.set (st.above outer log).stack.caller name text =
        (st.stack.set st.stack.caller name text).map (·.above outer) := by
      rw [hcaller]
      exact ScopeStack.set_above h outer _ name text
    rw [hset]
    cases st.stack.set st.stack.caller name text <;> exact ⟨log, rfl⟩
  case h_3 =>
    obtain ⟨log', heq⟩ := linkGlobals_above args outer st log hdepth
    exact ⟨log', Prod.ext rfl heq⟩
  case h_4 text => exact ⟨log, Prod.ext rfl (st.write_above outer log _)⟩
  case h_5 text => exact ⟨log, Prod.ext rfl (st.write_above outer log text)⟩
  case h_6 => exact ⟨_, rfl⟩
  case h_7 => exact ⟨_, rfl⟩
  case h_8 text => exact ⟨_, rfl⟩
  case h_9 => exact ⟨_, rfl⟩

end Builtin

/-! ## Two runs -/

/-- Two states with the same `depth` scopes, the global one among them, that stand on top of
different other calls. -/
def SameOnTop (depth : Nat) (outer outer' : List Scope) (s s' : State H) : Prop :=
  ∃ (core : State H) (log log' : List LogEntry), core.stack.Scoped ∧ core.stack.depth = depth ∧
    s = core.above outer log ∧ s' = core.above outer' log'

section

variable {n : Nat} {outer outer' : List Scope}

theorem SameOnTop.lockstep (hn : 2 ≤ n) :
    Lockstep (SameOnTop n outer outer' : State H → State H → Prop) where
  pending_eq := by
    rintro _ _ ⟨core, log, log', _, _, rfl, rfl⟩
    rfl
  lookup_eq := by
    rintro _ _ name ⟨core, log, log', hscoped, rfl, rfl, rfl⟩
    rw [State.lookup_above hscoped hn, State.lookup_above hscoped hn]
  mark := by
    rintro _ _ pending ⟨core, log, log', hscoped, hdepth, rfl, rfl⟩
    exact ⟨{ core with pendingReturn := pending }, log, log', hscoped, hdepth, rfl, rfl⟩

/-- A command that did the same in its own scope did the same when that is gone. -/
theorem SameOnTop.leave {cut : Fault → Prop} (hn : 1 ≤ n) {o o' : Outcome H Reply}
    (h : Outcome.AgreeUnless (fun fault _ => cut fault) (SameOnTop (n + 1) outer outer') o o') :
    Outcome.AgreeUnless (fun fault _ => cut fault) (SameOnTop n outer outer')
      (o.1.map fun reply => reply.toCompletion o.2.returnFlag, o.2.leave)
      (o'.1.map fun reply => reply.toCompletion o'.2.returnFlag, o'.2.leave) := by
  obtain ⟨reply, s⟩ := o
  obtain ⟨reply', s'⟩ := o'
  rcases h with ⟨rfl, core, log, log', hscoped, hdepth, rfl, rfl⟩ | ⟨fault, rfl, hcut⟩
  · have hinner : 2 ≤ core.stack.depth := by omega
    have hleave : ∀ outer log, (core.above outer log).leave = core.leave.above outer log :=
      fun outer log => congrArg (fun stack => { core.leave with stack, log })
        (core.stack.drop_above outer hinner)
    refine .inl ⟨rfl, core.leave, log, log', ?_, ?_, hleave outer log, hleave outer' log'⟩
    · exact (ScopeStack.LinksKept.drop core.stack).scoped hscoped
    · obtain ⟨k, rfl⟩ : ∃ k, n = k + 1 := ⟨n - 1, by omega⟩
      exact ScopeStack.depth_drop hdepth
  · exact .inr ⟨fault, rfl, hcut⟩

variable (env : Env Empty) {d d' : Dispatcher Empty} (renewed : Evaluator Empty)
  {cut : Fault → Prop}

theorem runBuiltin_sameOnTop (hn : 3 ≤ n) (b : Builtin) (args : List String)
    {core : State Empty} (hscoped : core.stack.Scoped) (hdepth : core.stack.depth = n)
    (log log' : List LogEntry) :
    Outcome.AgreeUnless (fun fault _ => cut fault) (SameOnTop n outer outer')
      ((Handler.builtin b).run env d renewed args (core.above outer log))
      ((Handler.builtin b).run env d' renewed args (core.above outer' log')) := by
  obtain ⟨log₁, heq⟩ := b.run_above args hscoped (by omega) outer log
  obtain ⟨log₂, heq'⟩ := b.run_above args hscoped (by omega) outer' log'
  rw [Handler.run_builtin, Handler.run_builtin, heq, heq']
  have hsame : SameOnTop n outer outer' ((b.run args core).2.above outer log₁)
      ((b.run args core).2.above outer' log₂) :=
    ⟨(b.run args core).2, log₁, log₂, (b.trace_path args core).last_scoped hscoped,
      (b.run_does args core).depth.trans hdepth, rfl, rfl⟩
  exact Outcome.AgreeUnless.map (.pure hsame _) _

/-- The body of a procedure sees the scope of its call and what is above it. -/
theorem runProcedure_sameOnTop (hn : 2 ≤ n)
    (hd : Dispatchers.AgreeUnless (fun fault _ => cut fault) (SameOnTop n outer outer') d d')
    (p : Procedure) (args : List String) {core : State Empty} (hscoped : core.stack.Scoped)
    (hfree : core.stack.LinkFree core.stack.top) (hdepth : core.stack.depth = n)
    (log log' : List LogEntry) :
    Outcome.AgreeUnless (fun fault _ => cut fault) (SameOnTop n outer outer')
      ((Handler.procedure p).run env d renewed args (core.above outer log))
      ((Handler.procedure p).run env d' renewed args (core.above outer' log')) := by
  rw [Handler.run_procedure, Handler.run_procedure, evaluateScript_eq_run, evaluateScript_eq_run]
  refine (Script.run_agreeUnless (SameOnTop.lockstep hn) hd _ {} ?_).map _
  let bound : State Empty := { core with stack := core.stack.bind p.params args }
  have hbound : ∀ outer log, { core.above outer log with
      stack := (core.above outer log).stack.bind p.params args } = bound.above outer log :=
    fun outer log => congrArg (fun stack => { core.above outer log with stack })
      (core.stack.bind_above outer (by omega) p.params args)
  refine ⟨bound, log, log', ?_, ?_, hbound outer log, hbound outer' log'⟩
  · exact (traceBind_path (p.params.zip args) core hfree).last_scoped hscoped
  · exact (ScopeStack.depth_bind ..).trans hdepth

theorem callHandler_sameOnTop (hn : 2 ≤ n)
    (hd : Dispatchers.AgreeUnless (fun fault _ => cut fault) (SameOnTop (n + 1) outer outer') d d')
    (handler : Handler Empty) (args : List String) {s s' : State Empty}
    (h : SameOnTop n outer outer' s s') :
    Outcome.AgreeUnless (fun fault _ => cut fault) (SameOnTop n outer outer')
      (callHandler env d renewed handler args s) (callHandler env d' renewed handler args s') := by
  obtain ⟨core, log, log', hscoped, rfl, rfl, rfl⟩ := h
  have hinside : ∀ outer log, (core.above outer log).inside = core.inside.above outer log :=
    fun _ _ => rfl
  have hscoped' : core.inside.stack.Scoped := (ScopeStack.LinksKept.push core.stack).scoped hscoped
  have hfree : core.inside.stack.LinkFree core.inside.stack.top := .push core.stack
  have hdepth : core.inside.stack.depth = core.stack.depth + 1 := core.stack.depth_push
  rw [callHandler_eq, callHandler_eq, hinside, hinside]
  apply SameOnTop.leave (by omega)
  cases handler with
  | builtin b => exact runBuiltin_sameOnTop env renewed (by omega) b args hscoped' hdepth log log'
  | procedure p =>
      exact runProcedure_sameOnTop env renewed (by omega) hd p args hscoped' hfree hdepth log log'
  | host h => exact h.elim

end

theorem SameOnTop.commands_eq {n : Nat} {outer outer' : List Scope} {s s' : State H}
    (h : SameOnTop n outer outer' s s') : s.commands = s'.commands := by
  obtain ⟨core, log, log', _, _, rfl, rfl⟩ := h
  rfl

theorem SameOnTop.commandCount_eq {n : Nat} {outer outer' : List Scope} {s s' : State H}
    (h : SameOnTop n outer outer' s s') : s.commandCount = s'.commandCount := by
  obtain ⟨core, log, log', _, _, rfl, rfl⟩ := h
  rfl

theorem SameOnTop.counted {n : Nat} {outer outer' : List Scope} {s s' : State H}
    (h : SameOnTop n outer outer' s s') : SameOnTop n outer outer' s.counted s'.counted := by
  obtain ⟨core, log, log', hscoped, hdepth, rfl, rfl⟩ := h
  exact ⟨core.counted, log, log', hscoped, hdepth, rfl, rfl⟩

theorem SameOnTop.note {n : Nat} {outer outer' : List Scope} {s s' : State H}
    (h : SameOnTop n outer outer' s s') (entry entry' : LogEntry) :
    SameOnTop n outer outer' (s.note entry) (s'.note entry') := by
  obtain ⟨core, log, log', hscoped, hdepth, rfl, rfl⟩ := h
  exact ⟨core, entry :: log, entry' :: log', hscoped, hdepth, rfl, rfl⟩

/-- Two dispatches that may nest calls to different depths go the same way, up to where the one
with less room runs out of it, if the commands that they run do. -/
theorem dispatchWith_agreeUnless {R : State H → State H → Prop} {differ : Prop} (env : Env H)
    (renewed : Evaluator H) {room room' : Nat} (hle : room ≤ room')
    (hdiffer : room ≠ room' → differ) (words : List String) {s s' : State H} (h : R s s')
    (hcounted : R s.counted s'.counted) (hcommands : s.commands = s'.commands)
    (hcount : s.commandCount = s'.commandCount)
    (hcall : ∀ r r', room = r + 1 → room' = r' + 1 → ∀ name args handler,
      words = name :: args → s.commands.find? name = some handler →
        Outcome.AgreeUnless (fun fault _ => differ ∧ fault = .script env.limits.depthError) R
          (callHandler env (dispatchWith env renewed r) renewed handler args
            (s.counted.note (.dispatching name args s.counted.stack.depth)))
          (callHandler env (dispatchWith env renewed r') renewed handler args
            (s'.counted.note (.dispatching name args s'.counted.stack.depth)))) :
    Outcome.AgreeUnless (fun fault _ => differ ∧ fault = .script env.limits.depthError) R
      (dispatchWith env renewed room words s) (dispatchWith env renewed room' words s') := by
  match room, room' with
  | 0, 0 =>
      refine enter_agreeUnless env renewed words h hcommands hcount ?_ ?_
      · exact fun _ => .pure hcounted _
      · exact fun _ _ _ _ _ _ => .pure hcounted _
  | 0, room' + 1 =>
      refine enter_agreeUnless env renewed words h hcommands hcount ?_ ?_
      · exact fun _ => .pure hcounted _
      · exact fun _ _ _ _ _ _ => .inr ⟨_, rfl, hdiffer (by simp), rfl⟩
  | room + 1, 0 => exact absurd hle (by simp)
  | room + 1, room' + 1 =>
      refine enter_agreeUnless env renewed words h hcommands hcount ?_ ?_
      · exact fun _ => .pure hcounted _
      · exact fun _ => hcall room room' rfl rfl

/-- A dispatch does the same on top of other calls. -/
theorem dispatchWith_sameOnTop (env : Env Empty) (renewed : Evaluator Empty)
    {outer outer' : List Scope} {differ : Prop} (room : Nat) :
    ∀ {room' n : Nat}, room ≤ room' → (room ≠ room' → differ) → 2 ≤ n →
      Dispatchers.AgreeUnless
        (fun fault _ => differ ∧ fault = .script env.limits.depthError) (SameOnTop n outer outer')
        (dispatchWith env renewed room) (dispatchWith env renewed room') := by
  induction room with
  | zero =>
      intro room' n hle hdiffer hn words s s' h _
      refine dispatchWith_agreeUnless env renewed hle hdiffer words h h.counted h.commands_eq
        h.commandCount_eq ?_
      rintro r r' ⟨⟩
  | succ room ih =>
      intro room' n hle hdiffer hn words s s' h _
      refine dispatchWith_agreeUnless env renewed hle hdiffer words h h.counted h.commands_eq
        h.commandCount_eq ?_
      rintro _ r' ⟨⟩ rfl name args handler _ _
      have hinner := ih (n := n + 1) (Nat.le_of_succ_le_succ hle)
        (fun hne => hdiffer fun heq => hne (Nat.succ.inj heq)) (by omega)
      exact callHandler_sameOnTop env renewed hn hinner handler args (h.counted.note _ _)

/-! ## A call of a procedure -/

/-- Two states that differ in nothing but the scopes of the calls in progress, which are `outer` and
`outer'`, the return flag and the log. -/
structure SameOutside (outer outer' : List Scope) (s s' : State H) : Prop where
  locals : s.stack.locals = outer
  locals' : s'.stack.locals = outer'
  globals : s.stack.globals = s'.stack.globals
  commands : s.commands = s'.commands
  commandCount : s.commandCount = s'.commandCount
  output : s.output = s'.output
  stream : s.stream = s'.stream
  pendingReturn : s.pendingReturn = s'.pendingReturn
  replacement : s.replacement = s'.replacement

namespace SameOutside

variable {outer outer' : List Scope} {s s' : State H}

theorem symm (h : SameOutside outer outer' s s') : SameOutside outer' outer s' s :=
  ⟨h.locals', h.locals, h.globals.symm, h.commands.symm, h.commandCount.symm, h.output.symm,
    h.stream.symm, h.pendingReturn.symm, h.replacement.symm⟩

theorem counted (h : SameOutside outer outer' s s') :
    SameOutside outer outer' s.counted s'.counted :=
  { h with commandCount := congrArg (· + 1) h.commandCount }

end SameOutside

/-- When the calls on top are over, the calls below them are what they were. -/
theorem SameOnTop.outside {outer outer' : List Scope} {s s' : State H}
    (h : SameOnTop 1 outer outer' s s') : SameOutside outer outer' s s' := by
  obtain ⟨core, log, log', _, hdepth, rfl, rfl⟩ := h
  have hlocals : core.stack.locals = [] := List.length_eq_zero_iff.1 (Nat.succ.inj hdepth)
  have habove : ∀ outer, (core.stack.above outer).locals = outer := by
    intro outer
    rw [ScopeStack.above, hlocals, List.nil_append]
  exact ⟨habove outer, habove outer', rfl, rfl, rfl, rfl, rfl, rfl, rfl⟩

/-- The state as it would be with no call in progress. -/
def State.alone (st : State H) : State H :=
  { st with stack := { globals := st.stack.globals }, log := [] }

theorem SameOutside.alone_inside {outer outer' : List Scope} {s s' : State H}
    (h : SameOutside outer outer' s s') : s.alone.inside = s'.alone.inside := by
  obtain ⟨⟨⟨_, _⟩, _, _, _, _, _⟩, _, _, _⟩ := s
  obtain ⟨⟨⟨_, _⟩, _, _, _, _, _⟩, _, _, _⟩ := s'
  obtain ⟨rfl, rfl, rfl, rfl, rfl, rfl, rfl, rfl, rfl⟩ := h
  rfl

theorem State.alone_scoped {st : State H} (h : st.stack.LinkFree 0) : st.alone.stack.Scoped where
  root := h
  links := by
    intro level name frame target hslot
    cases level with
    | zero => exact absurd hslot (h name frame target)
    | succ k => cases hslot

theorem callProcedure_sameOutside (env : Env Empty) {d d' : Dispatcher Empty}
    (renewed : Evaluator Empty) {cut : Fault → Prop} {outer outer' : List Scope}
    (hd : Dispatchers.AgreeUnless (fun fault _ => cut fault) (SameOnTop 2 outer outer') d d')
    (p : Procedure) (args : List String) {s s' : State Empty}
    (h : SameOutside outer outer' s s') (hroot : s.stack.LinkFree 0) :
    Outcome.AgreeUnless (fun fault _ => cut fault) (SameOutside outer outer')
      (callHandler env d renewed (.procedure p) args s)
      (callHandler env d' renewed (.procedure p) args s') := by
  let core := s.alone.inside
  have hs : s.inside = core.above outer s.log := by
    rw [← h.locals]
    rfl
  have hs' : s'.inside = core.above outer' s'.log := by
    rw [show core = s'.alone.inside from h.alone_inside, ← h.locals']
    rfl
  have hscoped : core.stack.Scoped :=
    (ScopeStack.LinksKept.push s.alone.stack).scoped (State.alone_scoped hroot)
  have hfree : core.stack.LinkFree core.stack.top := .push s.alone.stack
  have hdepth : core.stack.depth = 2 := rfl
  have hrun := runProcedure_sameOnTop env renewed (Nat.le_refl 2) hd p args hscoped hfree hdepth
    s.log s'.log
  rw [callHandler_eq, callHandler_eq, hs, hs']
  rcases SameOnTop.leave (Nat.le_refl 1) hrun with ⟨heq, hsame⟩ | hcut
  · exact .inl ⟨heq, hsame.outside⟩
  · exact .inr hcut

theorem dispatchProcedure_sameOutside (env : Env Empty) (renewed : Evaluator Empty)
    {outer outer' : List Scope} {differ : Prop} {room room' : Nat} (hle : room ≤ room')
    (hdiffer : room ≠ room' → differ) {s s' : State Empty} (h : SameOutside outer outer' s s')
    (hroot : s.stack.LinkFree 0) {name : String} {p : Procedure}
    (hfind : s.commands.find? name = some (.procedure p)) (args : List String) :
    Outcome.AgreeUnless (fun fault _ => differ ∧ fault = .script env.limits.depthError)
      (SameOutside outer outer') (dispatchWith env renewed room (name :: args) s)
      (dispatchWith env renewed room' (name :: args) s') := by
  refine dispatchWith_agreeUnless env renewed hle hdiffer _ h h.counted h.commands h.commandCount ?_
  rintro r r' rfl rfl _ _ handler ⟨⟩ hhandler
  obtain rfl : handler = .procedure p := Option.some.inj (hhandler.symm.trans hfind)
  have hinner : Dispatchers.AgreeUnless
      (fun fault _ => differ ∧ fault = .script env.limits.depthError) (SameOnTop 2 outer outer')
      (dispatchWith env renewed r) (dispatchWith env renewed r') :=
    dispatchWith_sameOnTop env renewed r (Nat.le_of_succ_le_succ hle)
      (fun hne => hdiffer fun heq => hne (Nat.succ.inj heq)) (Nat.le_refl 2)
  exact callProcedure_sameOutside env renewed hinner p args { h.counted with } hroot

/-- A call leaves the scopes of the calls below it as they were. -/
theorem dispatchProcedure_locals (env : Env Empty) (renewed : Evaluator Empty) (room : Nat)
    {st : State Empty} (hroot : st.stack.LinkFree 0) {name : String} {p : Procedure}
    (hfind : st.commands.find? name = some (.procedure p)) (args : List String) :
    (dispatchWith env renewed room (name :: args) st).2.stack.locals = st.stack.locals := by
  have hself : SameOutside st.stack.locals st.stack.locals st st :=
    ⟨rfl, rfl, rfl, rfl, rfl, rfl, rfl, rfl, rfl⟩
  -- a run beside itself has the same room, so nothing cuts it off
  have hagree : Outcome.AgreeUnless
      (fun fault _ => False ∧ fault = .script env.limits.depthError)
      (SameOutside st.stack.locals st.stack.locals)
      (dispatchWith env renewed room (name :: args) st)
      (dispatchWith env renewed room (name :: args) st) :=
    dispatchProcedure_sameOutside env renewed (Nat.le_refl room) (fun hne => hne rfl) hself hroot
      hfind args
  rcases hagree with ⟨_, hafter⟩ | ⟨_, _, hfalse, _⟩
  · exact hafter.locals
  · exact hfalse.elim

/-- Two calls that do not run out of room do the same, whichever has more of it. -/
theorem dispatchProcedure_agree (env : Env Empty) (renewed : Evaluator Empty)
    {outer outer' : List Scope} {room room' : Nat} {s s' : State Empty}
    (h : SameOutside outer outer' s s') (hroot : s.stack.LinkFree 0) (hroot' : s'.stack.LinkFree 0)
    {name : String} {p : Procedure} (hfind : s.commands.find? name = some (.procedure p))
    (args : List String)
    (hroom : (dispatchWith env renewed room (name :: args) s).1 ≠
      .error (.script env.limits.depthError))
    (hroom' : (dispatchWith env renewed room' (name :: args) s').1 ≠
      .error (.script env.limits.depthError)) :
    Outcome.Agree (SameOutside outer outer') (dispatchWith env renewed room (name :: args) s)
      (dispatchWith env renewed room' (name :: args) s') := by
  rcases Nat.le_total room room' with hle | hle
  · rcases dispatchProcedure_sameOutside env renewed hle (fun _ => trivial) h hroot hfind args with
      hagree | ⟨fault, hfault, _, rfl⟩
    · exact hagree
    · exact absurd hfault hroom
  · have hfind' : s'.commands.find? name = some (.procedure p) := h.commands ▸ hfind
    rcases dispatchProcedure_sameOutside env renewed hle (fun _ => trivial) h.symm hroot' hfind'
      args with ⟨heq, hafter⟩ | ⟨fault, hfault, _, rfl⟩
    · exact ⟨heq.symm, hafter.symm⟩
    · exact absurd hfault hroom'

/-! ## States that can occur -/

theorem Step.replacement_eq {st : State H} {m : Moment H} (step : Step st m) :
    m.state.replacement = st.replacement := by
  cases step with
  | write text =>
      obtain ⟨stream, output, heq⟩ := st.write_eq text
      rw [heq]
  | _ => rfl

namespace Env

/-- The states that an interpreter without host commands gets into: a new one, any moment while an
operation is done, and whatever a host makes of these without touching the scopes. -/
inductive Reaches (env : Env Empty) : State Empty → Prop where
  | start (commands : Table (Handler Empty)) (stream : Option String) :
      Reaches env { commands := commands, stream := stream }
  | during {st : State Empty} (reached : Reaches env st) (op : Operation) {m : Moment Empty}
      (hm : m ∈ env.traceOperation st op) : Reaches env m.state
  | adjust {st : State Empty} (reached : Reaches env st) (commands : Table (Handler Empty))
      (count : Nat) (output : String) (stream : Option String) (pending flag : Bool) :
      Reaches env
        { st with
          commands := commands, commandCount := count, output := output, stream := stream,
          pendingReturn := pending, returnFlag := flag }

theorem Reaches.scoped {env : Env Empty} {st : State Empty} (h : env.Reaches st) :
    st.stack.Scoped := by
  induction h with
  | start => exact .empty
  | during _ op hm ih => exact (env.traceOperation_path _ op).all_scoped ih _ hm
  | adjust _ _ _ _ _ _ _ ih => exact ih

theorem Reaches.replacement {env : Env Empty} {st : State Empty} (h : env.Reaches st) :
    st.replacement = none := by
  induction h with
  | start => rfl
  | during _ op hm ih =>
      have hkeep := (env.traceOperation_path _ op).invariant
        (I := fun st => st.replacement = none) (fun step h => step.replacement_eq.trans h) ih
      exact hkeep.1 _ (List.mem_cons_of_mem _ (List.mem_map_of_mem hm))
  | adjust _ _ _ _ _ _ _ ih => exact ih

theorem dispatch_eq (env : Env H) (words : List String) (st : State H) :
    env.dispatch words st =
      dispatchWith env env.afresh (env.limits.room st.stack.depth) words st := by
  rw [← env.entry_eq]
  rfl

end Env

/-- **A procedure call is isolated from its callers.** Take two states that can occur, with the same
global scope, commands, count and output, and any calls in progress. Each leaves the scopes of its
own calls as they were when a procedure is called; and unless one of them runs into the limit on
nested calls, the call gives the same completion or fault in both, and the same global scope,
commands, count and output. -/
theorem procedure_call_isolated (env : Env Empty) {s s' : State Empty} (hs : env.Reaches s)
    (hs' : env.Reaches s') (hpending : s.pendingReturn = false)
    (hpending' : s'.pendingReturn = false) (hglobals : s.stack.globals = s'.stack.globals)
    (hcommands : s.commands = s'.commands) (hcount : s.commandCount = s'.commandCount)
    (houtput : s.output = s'.output) (hstream : s.stream = s'.stream) {name : String}
    {p : Procedure} (hfind : s.commands.find? name = some (.procedure p)) (args : List String) :
    let o := env.dispatch (name :: args) s
    let o' := env.dispatch (name :: args) s'
    o.2.stack.locals = s.stack.locals ∧ o'.2.stack.locals = s'.stack.locals ∧
    (o.1 ≠ .error (.script env.limits.depthError) → o'.1 ≠ .error (.script env.limits.depthError) →
      o.1 = o'.1 ∧ o.2.stack.globals = o'.2.stack.globals ∧ o.2.commands = o'.2.commands ∧
        o.2.commandCount = o'.2.commandCount ∧ o.2.output = o'.2.output ∧
        o.2.stream = o'.2.stream) := by
  have hsame : SameOutside s.stack.locals s'.stack.locals s s' :=
    ⟨rfl, rfl, hglobals, hcommands, hcount, houtput, hstream, hpending.trans hpending'.symm,
      hs.replacement.trans hs'.replacement.symm⟩
  have hfind' : s'.commands.find? name = some (.procedure p) := hcommands ▸ hfind
  intro o o'
  refine ⟨?_, ?_, ?_⟩
  · rw [show o = _ from env.dispatch_eq _ s]
    exact dispatchProcedure_locals env env.afresh _ hs.scoped.root hfind args
  · rw [show o' = _ from env.dispatch_eq _ s']
    exact dispatchProcedure_locals env env.afresh _ hs'.scoped.root hfind' args
  · intro hroom hroom'
    rw [show o = _ from env.dispatch_eq _ s] at hroom ⊢
    rw [show o' = _ from env.dispatch_eq _ s'] at hroom' ⊢
    obtain ⟨heq, hafter⟩ := dispatchProcedure_agree env env.afresh hsame hs.scoped.root
      hs'.scoped.root hfind args hroom hroom'
    exact ⟨heq, hafter.globals, hafter.commands, hafter.commandCount, hafter.output, hafter.stream⟩

/-- A procedure that changes a global variable, called once with no other call in progress and once
from a call that has variables of the same names. -/
theorem procedure_call_isolated_same_names :
    let p : Procedure := ⟨"p", ["x"], "global y; set y [set x]"⟩
    let q : Procedure := ⟨"q", ["x", "y"], ""⟩
    let commands : Table (Handler Empty) :=
      (Builtin.table.insert "p" (.procedure p)).insert "q" (.procedure q)
    let s : State Empty := { commands := commands, commandCount := 1 }
    let s' : State Empty :=
      { s with
        stack := { locals := [(Table.empty.insert "x" (.value "1")).insert "y" (.value "2")] },
        log := [.dispatching "q" ["1", "2"] 1] }
    let env : Env Empty := { host := nofun, fresh := {} }
    env.Reaches s ∧ env.Reaches s' ∧
    (env.dispatch ["p", "3"] s).1.toOption = some ⟨"3", false⟩ ∧
    (env.dispatch ["p", "3"] s).1 = (env.dispatch ["p", "3"] s').1 ∧
    (env.dispatch ["p", "3"] s).2.stack.globals = (env.dispatch ["p", "3"] s').2.stack.globals ∧
    (env.dispatch ["p", "3"] s').2.stack.locals = s'.stack.locals := by
  intro p q commands s s' env
  have hs : env.Reaches s := .adjust (.start commands none) commands 1 "" none false false
  have hmoment : ⟨.act, s'⟩ ∈
      env.traceOperation { commands := commands } (.dispatch ["q", "1", "2"]) := by
    have hroom : env.limits.room 1 = 198 + 1 := rfl
    have hfind : commands.find? "q" = some (.procedure q) := rfl
    show _ ∈ traceWith env env.afresh (env.limits.room 1) ["q", "1", "2"] { commands := commands }
    rw [hroom, traceWith, traceEnter, hfind]
    exact List.mem_of_getElem? (i := 3) rfl
  have hs' : env.Reaches s' := .during (.start commands none) _ hmoment
  have hfind : s.commands.find? "p" = some (.procedure p) := rfl
  obtain ⟨_, hkept, hsame⟩ :=
    procedure_call_isolated env hs hs' rfl rfl rfl rfl rfl rfl rfl hfind ["3"]
  have hvalue : (env.dispatch ["p", "3"] s).1.toOption = some ⟨"3", false⟩ := by decide +kernel
  have hvalue' : (env.dispatch ["p", "3"] s').1.toOption = some ⟨"3", false⟩ := by decide +kernel
  have hroom : (env.dispatch ["p", "3"] s).1 ≠ .error (.script env.limits.depthError) := by
    intro hfault
    rw [hfault] at hvalue
    cases hvalue
  have hroom' : (env.dispatch ["p", "3"] s').1 ≠ .error (.script env.limits.depthError) := by
    intro hfault
    rw [hfault] at hvalue'
    cases hvalue'
  obtain ⟨heq, hglobals, _⟩ := hsame hroom hroom'
  exact ⟨hs, hs', hvalue, heq, hglobals, hkept⟩

end EmbeddedTcl
