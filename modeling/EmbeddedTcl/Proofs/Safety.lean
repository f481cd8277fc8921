import EmbeddedTcl.Proofs.Isolation
import EmbeddedTcl.Proofs.Termination
import EmbeddedTcl.Session

/-!
# Only script errors

An interpreter can be misused: by an index with no scope behind it, by a dispatch without a name, by
removing the global scope, or by a command that looks for its caller where there is none. Text never
does any of this. A link leads to the global scope, which is always there; an empty command is not
dispatched; and a command runs in a scope above another one and takes just that scope away. So all
that ends an evaluation early is a script error, and a session that runs a script always has a
result to give.
-/

namespace EmbeddedTcl

variable {H α : Type}

/-! ## Faults of built-ins -/

/-- If there is a fault, it is a script error. -/
def ScriptErrors (outcome : Except Fault α) : Prop :=
  ∀ fault, outcome = .error fault → ∃ error, fault = .script error

theorem ScriptErrors.ok (value : α) : ScriptErrors (.ok value) := by
  rintro fault ⟨⟩

theorem ScriptErrors.script (error : Error) :
    ScriptErrors (.error (.script error) : Except Fault α) := by
  rintro fault ⟨⟩
  exact ⟨error, rfl⟩

theorem ScopeStack.Scoped.get_scriptErrors {s : ScopeStack} (h : s.Scoped) (level : Nat)
    (name : String) : ScriptErrors (s.get level name) := by
  rw [h.get_eq]
  cases s.view.get level name with
  | none => exact .script _
  | some text => exact .ok text

theorem Builtin.run_scriptErrors (b : Builtin) (args : List String) {st : State H}
    (h : st.stack.Scoped) : ScriptErrors (b.run args st).1 := by
  unfold Builtin.run
  split
  case h_1 name => exact h.get_scriptErrors _ name
  case h_2 name text =>
    rw [h.set_eq]
    exact .ok text
  case h_9 => exact .script _
  all_goals exact .ok _

/-! ## Faults of the machine -/

namespace Machine

/-- The fault that a machine has met. -/
def fault? : Machine → Option Fault
  | failing fault _ _ => some fault
  | halted (.error fault, _) => some fault
  | _ => none

/-- The links are those that scripts make, and any fault is a script error. -/
structure Sound (m : Machine) : Prop where
  links : m.state.stack.Scoped
  script : ∀ fault, m.fault? = some fault → ∃ error, fault = .script error

theorem Sound.failing {error : Error} {callers : List Caller} {st : State Empty}
    (h : st.stack.Scoped) : (failing (.script error) callers st).Sound where
  links := h
  script := by
    rintro fault ⟨⟩
    exact ⟨error, rfl⟩

theorem Sound.reading {r : Reader} {callers : List Caller} {st : State Empty}
    (h : st.stack.Scoped) : (reading r callers st).Sound :=
  ⟨h, nofun⟩

theorem Sound.ending {completion : Completion} {callers : List Caller} {st : State Empty}
    (h : st.stack.Scoped) : (ending completion callers st).Sound :=
  ⟨h, nofun⟩

theorem deliver_sound (completion : Completion) (caller : Caller) (callers : List Caller)
    {st : State Empty} (h : st.stack.Scoped) : (deliver completion caller callers st).Sound := by
  unfold deliver
  split
  · split
    · exact .ending h
    · exact .reading h
  · exact .reading h

theorem answer_sound (caller : Caller) (callers : List Caller) {o : Outcome Empty Completion}
    (h : o.2.stack.Scoped) (hscript : ScriptErrors o.1) : (answer caller callers o).Sound := by
  obtain ⟨fault | completion, st⟩ := o
  · obtain ⟨error, rfl⟩ := hscript fault rfl
    exact .failing h
  · exact deliver_sound completion caller callers h

theorem invoke_sound (args : List String) (caller : Caller) (callers : List Caller)
    {st : State Empty} (h : st.stack.Scoped) (hfree : st.stack.LinkFree st.stack.top)
    (handler : Handler Empty) : (invoke args caller callers st handler).Sound := by
  cases handler with
  | builtin b =>
      have hscript := b.run_scriptErrors args h
      have hscoped := (b.trace_path args st).last_scoped h
      rw [invoke]
      apply answer_sound
      · exact (ScopeStack.LinksKept.drop _).scoped hscoped
      · intro fault hfault
        apply hscript fault
        cases hrun : (b.run args st).1 with
        | error fault' =>
            rw [hrun] at hfault
            cases hfault
            rfl
        | ok text =>
            rw [hrun] at hfault
            cases hfault
  | procedure p =>
      exact .reading ((traceBind_path (p.params.zip args) st hfree).last_scoped h)
  | host h => exact h.elim

/-- A command that has a name ends in a value or a script error. -/
theorem call_sound (limits : Limits) {words : List String} (hwords : words ≠ [])
    (caller : Caller) (callers : List Caller) {st : State Empty} (h : st.stack.Scoped) :
    (call limits words caller callers st).Sound := by
  cases words with
  | nil => exact absurd rfl hwords
  | cons name args =>
      rw [call]
      cases st.commands.find? name with
      | none => exact .failing h
      | some handler =>
          dsimp only
          split
          · exact .failing h
          split
          · exact .failing h
          · apply invoke_sound
            · exact (ScopeStack.LinksKept.push st.stack).scoped h
            · exact .push st.stack

theorem act_sound (limits : Limits) (callers : List Caller) {st : State Empty}
    (h : st.stack.Scoped) (action : Action) : (act limits callers st action).Sound := by
  cases action with
  | go r => exact .reading h
  | lookup name r =>
      have hget := h.get_scriptErrors st.stack.top name
      rw [act, State.lookup]
      cases hvalue : st.stack.get st.stack.top name with
      | ok text => exact .reading h
      | error fault =>
          obtain ⟨error, rfl⟩ := hget fault hvalue
          exact .failing h
  | run words r =>
      rw [act, perform]
      split
      · split
        · exact .reading h
        · exact .reading h
      · rename_i hwords
        have hlinks : ({ st with pendingReturn := false } : State Empty).stack.Scoped := h
        refine call_sound limits ?_ _ callers hlinks
        rintro rfl
        exact hwords rfl
  | fail error => exact .failing h
  | finish completion => exact .ending h

theorem step_sound (limits : Limits) {m : Machine} (h : m.Sound) : (m.step limits).Sound := by
  obtain ⟨hscoped, hscript⟩ := h
  match m with
  | reading r callers st => exact act_sound limits callers hscoped r.step
  | ending completion [] st => exact ⟨hscoped, nofun⟩
  | ending completion (caller :: callers) st =>
      exact deliver_sound _ caller callers ((ScopeStack.LinksKept.drop st.stack).scoped hscoped)
  | failing fault [] st => exact ⟨hscoped, hscript⟩
  | failing fault (caller :: callers) st =>
      exact ⟨(ScopeStack.LinksKept.drop st.stack).scoped hscoped, hscript⟩
  | halted outcome => exact ⟨hscoped, hscript⟩

theorem run_sound (limits : Limits) (n : Nat) :
    ∀ {m : Machine}, m.Sound → (m.run limits n).Sound := by
  induction n with
  | zero => exact fun h => h
  | succ n ih => exact fun h => ih (step_sound limits h)

end Machine

theorem Env.evaluate_scriptErrors (env : Env Empty) (script : String) {st : State Empty}
    (h : st.stack.Scoped) : ScriptErrors (env.evaluate script st).1 := by
  obtain ⟨n, hhalt⟩ := Machine.start_leads env script st
  have hsound := Machine.run_sound env.limits n (m := Machine.start script st) (.reading h)
  rw [hhalt] at hsound
  intro fault hfault
  apply hsound.script fault
  rw [env.evaluate_eq] at hfault
  generalize env.evaluateScript script { st with pendingReturn := false } = o at hfault ⊢
  obtain ⟨fault' | completion, st'⟩ := o
  · cases hfault
    rfl
  · cases hfault

/-! ## Scopes on the way -/

/-- A command is called in a scope above that of its caller. -/
theorem Step.caller_of_call {st : State H} {m : Moment H} {handler : Handler H}
    {args : List String} (step : Step st m) (h : m.event = .call handler args) :
    m.state.stack.caller + 1 = m.state.stack.top := by
  cases step with
  | call => rfl
  | _ => cases h

/-- A scope that is removed is never the global one. -/
theorem Step.pop_of_leave {st : State H} {m : Moment H} (step : Step st m)
    (h : m.event = .leave) : st.stack.pop = .ok m.state.stack := by
  cases step with
  | leave inner =>
      have hlocals : st.stack.locals ≠ [] := by
        intro hnil
        rw [ScopeStack.depth, hnil] at inner
        exact absurd inner (Nat.lt_irrefl 1)
      rw [ScopeStack.pop, List.isEmpty_eq_false_iff.2 hlocals]
      rfl
  | _ => cases h

/-! ## Sessions -/

/-- The state of a session between two scripts: the links are those that scripts make, and the
interpreter at work is the current one. -/
structure State.AtRest (st : State H) : Prop where
  links : st.stack.Scoped
  current : st.replacement = none

namespace State.AtRest

variable {st st' : State H}

theorem settle_eq (h : st.AtRest) : st.settle = st :=
  settle_of_current h.current

theorem takeCurrentOutput_eq (h : st.AtRest) :
    st.takeCurrentOutput = (st.output, { st with output := "" }) :=
  takeCurrentOutput_of_current h.current

theorem silent (h : st.AtRest) : ({ st with output := "" } : State H).AtRest :=
  ⟨h.links, h.current⟩

theorem path {trace : List (Moment H)} (h : st.AtRest) (path : Path st trace st') : st'.AtRest := by
  refine (path.invariant (I := State.AtRest) ?_ h).2
  intro s m step hs
  exact ⟨step.scoped hs.links, step.replacement_eq.trans hs.current⟩

theorem evaluate {st : State Empty} (h : st.AtRest) (env : Env Empty) (script : String) :
    (env.evaluate script st).2.AtRest :=
  h.path (env.traceEvaluate_path script st)

end State.AtRest

theorem Table.find?_insertAll {entries : List (String × α)} {P : α → Prop}
    (hentries : ∀ entry ∈ entries, P entry.2) :
    ∀ {t : Table α}, (∀ name value, t.find? name = some value → P value) →
      ∀ name value, (t.insertAll entries).find? name = some value → P value := by
  induction entries with
  | nil => exact fun h => h
  | cons entry more ih =>
      obtain ⟨hentry, hmore⟩ := List.forall_mem_cons.1 hentries
      intro t ht
      apply ih hmore
      intro name value hfind
      rw [Table.find?_insert] at hfind
      split at hfind
      · cases hfind
        exact hentry
      · exact ht name value hfind

/-- The variables that a host gives a session hold values. -/
theorem Config.fresh_scoped (c : Config H) : c.fresh.stack.Scoped := by
  have hvalues : ∀ name slot, c.fresh.stack.globals.find? name = some slot →
      ∃ text, slot = .value text := by
    refine Table.find?_insertAll ?_ ?_
    · intro entry hentry
      obtain ⟨v, _, rfl⟩ := List.mem_map.1 hentry
      exact ⟨v.2, rfl⟩
    · intro name slot hfind
      cases hfind
  constructor
  · intro name frame target hslot
    rw [ScopeStack.slot?_zero] at hslot
    obtain ⟨text, htext⟩ := hvalues name _ hslot
    cases htext
  · intro level name frame target hslot
    cases level with
    | zero =>
        rw [ScopeStack.slot?_zero] at hslot
        obtain ⟨text, htext⟩ := hvalues name _ hslot
        cases htext
    | succ k => cases hslot

namespace Session

/-- What a host can do with a session that has no commands of its own. -/
inductive Call where
  | eval (script : String)
  | run (script : String)
  | reset

/-- The session after a call. -/
def after (s : Session Empty) : Call → Session Empty
  | .eval script => (s.eval script).2
  | .run script => (s.run script).2
  | .reset => s.reset

theorem eval_eq {s : Session Empty} (h : s.state.AtRest) (script : String) :
    s.eval script = ((s.config.env.evaluate script s.state).1,
      { s with state := (s.config.env.evaluate script s.state).2 }) := by
  have hrest := h.evaluate s.config.env script
  rw [eval]
  generalize s.config.env.evaluate script s.state = o at hrest ⊢
  rw [← hrest.settle_eq]

/-- A run has a result to give, and leaves no output behind. -/
theorem run_eq {s : Session Empty} (h : s.state.AtRest) (script : String) :
    let o := s.config.env.evaluate script { s.state with output := "" }
    let s' : Session Empty := { s with state := { o.2 with output := "" } }
    (∃ text, o.1 = .ok text ∧
      s.run script = (.ok { result := text, stdout := o.2.output }, s')) ∨
    ∃ error, o.1 = .error (.script error) ∧
      s.run script = (.ok { stdout := o.2.output,
                            stderr := "error: " ++ error.message ++ "\n",
                            exitCode := 1 }, s') := by
  have hrest := h.silent.evaluate s.config.env script
  have hscript := s.config.env.evaluate_scriptErrors script h.silent.links
  rw [run, runCurrent, h.takeCurrentOutput_eq]
  dsimp only
  generalize s.config.env.evaluate script { s.state with output := "" } = o at hrest hscript ⊢
  obtain ⟨fault | text, st⟩ := o
  · obtain ⟨error, rfl⟩ := hscript fault rfl
    refine .inr ⟨error, rfl, ?_⟩
    dsimp only
    rw [hrest.takeCurrentOutput_eq, hrest.silent.settle_eq]
  · refine .inl ⟨text, rfl, ?_⟩
    dsimp only
    rw [hrest.takeCurrentOutput_eq, hrest.silent.settle_eq]

theorem after_atRest {s : Session Empty} (h : s.state.AtRest) (call : Call) :
    (s.after call).state.AtRest := by
  cases call with
  | eval script =>
      rw [after, eval_eq h]
      exact h.evaluate s.config.env script
  | run script =>
      have hrest := (h.silent.evaluate s.config.env script).silent
      rw [after]
      rcases run_eq h script with ⟨text, _, hrun⟩ | ⟨error, _, hrun⟩
      · rw [hrun]
        exact hrest
      · rw [hrun]
        exact hrest
  | reset => exact ⟨s.config.fresh_scoped, h.current⟩

theorem foldl_after_atRest (calls : List Call) :
    ∀ {s : Session Empty}, s.state.AtRest → (calls.foldl after s).state.AtRest := by
  induction calls with
  | nil => exact fun h => h
  | cons call more ih => exact fun h => ih (after_atRest h call)

end Session

/-- **Only script errors escape.** Whatever a session without host commands was used for before, and
whatever the text, an evaluation gives a value or a script error. On the way every command is called
in a scope above that of its caller, and no scope is removed but that of a call. So a run always has
a result: the value with exit code 0, or no value, the message and exit code 1. -/
theorem only_script_errors_escape (c : Config Empty) (streamed : Bool) (calls : List Session.Call)
    (script : String) :
    let s := calls.foldl Session.after (c.start streamed)
    let env := s.config.env
    let o := env.evaluate script { s.state with output := "" }
    ((∃ text, (s.eval script).1 = .ok text) ∨
      ∃ error, (s.eval script).1 = .error (.script error)) ∧
    ((∃ text, o.1 = .ok text ∧ (s.run script).1 =
        .ok { result := text, stdout := o.2.output, stderr := "", exitCode := 0 }) ∨
      ∃ error, o.1 = .error (.script error) ∧ (s.run script).1 =
        .ok { result := "", stdout := o.2.output, stderr := "error: " ++ error.message ++ "\n",
              exitCode := 1 }) ∧
    Path s.state (env.traceEvaluate script s.state) (env.evaluate script s.state).2 ∧
    ∀ front m back, env.traceEvaluate script s.state = front ++ m :: back →
      (∀ handler args, m.event = .call handler args →
        m.state.stack.caller + 1 = m.state.stack.top) ∧
      (m.event = .leave → ∃ before, Path s.state front before ∧
        before.stack.pop = .ok m.state.stack) := by
  intro s env o
  have hstart : (c.start streamed).state.AtRest := ⟨c.fresh_scoped, rfl⟩
  have hrest : s.state.AtRest := Session.foldl_after_atRest calls hstart
  have hpath := env.traceEvaluate_path script s.state
  refine ⟨?_, ?_, hpath, ?_⟩
  · have hscript := env.evaluate_scriptErrors script hrest.links
    rw [Session.eval_eq hrest]
    cases houtcome : (env.evaluate script s.state).1 with
    | ok text => exact .inl ⟨text, rfl⟩
    | error fault =>
        obtain ⟨error, rfl⟩ := hscript fault houtcome
        exact .inr ⟨error, rfl⟩
  · rcases Session.run_eq hrest script with ⟨text, htext, hrun⟩ | ⟨error, herror, hrun⟩
    · exact .inl ⟨text, htext, congrArg Prod.fst hrun⟩
    · exact .inr ⟨error, herror, congrArg Prod.fst hrun⟩
  · intro front m back heq
    rw [heq] at hpath
    obtain ⟨before, hfront, hback⟩ := hpath.split
    cases hback with
    | cons step _ =>
        refine ⟨fun handler args => step.caller_of_call, ?_⟩
        intro hleave
        exact ⟨before, hfront, step.pop_of_leave hleave⟩

end EmbeddedTcl
