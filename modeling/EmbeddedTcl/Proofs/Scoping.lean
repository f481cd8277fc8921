import EmbeddedTcl.Proofs.Trace
import EmbeddedTcl.Proofs.TwoScopes
import EmbeddedTcl.Session

/-!
# Scoping

Whatever a host asks of an interpreter without host commands, in whatever order, its scopes are
`Scoped` at every moment, in the middle of a command as well as between two requests. One step keeps
this, so every state of every run has it.
-/

namespace EmbeddedTcl

variable {H : Type}

/-! ## One step -/

theorem Step.linksKept {st : State H} {m : Moment H} (step : Step st m) (h : st.stack.Scoped) :
    st.stack.LinksKept m.state.stack := by
  cases step with
  | call => exact .push st.stack
  | assign live hset => exact .set h live hset
  | link live name => exact .link h live name
  | write text =>
      obtain ⟨stream, output, heq⟩ := st.write_eq text
      rw [heq]
      exact .refl st.stack
  | leave => exact .drop st.stack
  | _ => exact .refl st.stack

theorem Step.scoped {st : State H} {m : Moment H} (step : Step st m) (h : st.stack.Scoped) :
    m.state.stack.Scoped :=
  (step.linksKept h).scoped h

/-! ## A whole run -/

namespace Path

variable {s t u : State H} {trace : List (Moment H)}

theorem all_states_scoped (path : Path s trace t) (h : s.stack.Scoped) :
    ∀ st ∈ s :: trace.map Moment.state, st.stack.Scoped :=
  (path.invariant Step.scoped h).1

theorem all_scoped (path : Path s trace t) (h : s.stack.Scoped) :
    ∀ m ∈ trace, m.state.stack.Scoped :=
  fun _ hm => path.all_states_scoped h _ (List.mem_cons_of_mem _ (List.mem_map_of_mem hm))

theorem last_scoped (path : Path s trace t) (h : s.stack.Scoped) : t.stack.Scoped :=
  (path.invariant Step.scoped h).2

/-- A link is there for as long as its level is. -/
theorem link_stays (path : Path s trace t) (h : s.stack.Scoped) {level : Nat} {name target : String}
    {frame : Int} (hslot : s.stack.slot? level name = some (.link frame target))
    (live : ∀ m ∈ trace, level < m.state.stack.depth) :
    ∀ m ∈ trace, m.state.stack.slot? level name = some (.link frame target) := by
  induction path with
  | nil => simp
  | cons step _ ih =>
      obtain ⟨hlive, hmore⟩ := List.forall_mem_cons.1 live
      have hslot' := (step.linksKept h).stay hslot hlive
      exact List.forall_mem_cons.2 ⟨hslot', ih (step.scoped h) hslot' hmore⟩

theorem split {front back : List (Moment H)} (path : Path s (front ++ back) u) :
    ∃ t, Path s front t ∧ Path t back u := by
  induction front generalizing s with
  | nil => exact ⟨s, .nil s, path⟩
  | cons m front ih =>
      cases path with
      | cons step rest =>
          obtain ⟨t, hfront, hback⟩ := ih rest
          exact ⟨t, .cons step hfront, hback⟩

/-- A name that a call has linked at some moment stays linked while the scope of the call lasts. -/
theorem linked_during {front during rest : List (Moment H)} {m : Moment H}
    (path : Path s (front ++ m :: (during ++ rest)) t) (h : s.stack.Scoped) {k : Nat}
    {name : String} (hlinked : (m.state.stack.view.calls k).linked name = true)
    (live : ∀ later ∈ during, k + 1 < later.state.stack.depth) :
    ∀ later ∈ during, (later.state.stack.view.calls k).linked name = true := by
  have hm : m.state.stack.Scoped := path.all_scoped h m (by simp)
  obtain ⟨u, _, hback⟩ := path.split
  cases hback with
  | cons step hmore =>
      -- from the state of `m` on, the steps of `during` are a run of their own
      obtain ⟨v, hduring, _⟩ := hmore.split
      have hslot := hm.linked_iff.1 hlinked
      intro later hlater
      apply ScopeStack.linked_of_slot
      exact hduring.link_stays hm hslot live later hlater

end Path

/-! ## Requests of a host -/

/-- What a host can ask of an interpreter. -/
inductive Operation where
  | evaluate (script : String)
  | evaluateScript (script : String)
  | dispatch (words : List String)
  | setGlobal (name text : String)

namespace Env

variable (env : Env Empty)

/-- The state after an operation. -/
def operate (st : State Empty) : Operation → State Empty
  | .evaluate script => (env.evaluate script st).2
  | .evaluateScript script => (env.evaluateScript script st).2
  | .dispatch words => (env.dispatch words st).2
  | .setGlobal name text => (st.withStack (st.stack.set 0 name text)).2

def traceOperation (st : State Empty) : Operation → List (Moment Empty)
  | .evaluate script => env.traceEvaluate script st
  | .evaluateScript script => env.traceScript script st
  | .dispatch words => env.traceDispatch words st
  | .setGlobal name text => [⟨.act, (st.withStack (st.stack.set 0 name text)).2⟩]

/-- The moments of all operations, one after the other. -/
def history : List Operation → State Empty → List (Moment Empty)
  | [], _ => []
  | op :: more, st => env.traceOperation st op ++ history more (env.operate st op)

theorem traceOperation_path (st : State Empty) (op : Operation) :
    Path st (env.traceOperation st op) (env.operate st op) := by
  cases op with
  | evaluate script => exact env.traceEvaluate_path script st
  | evaluateScript script => exact env.traceScript_path script st
  | dispatch words => exact env.traceDispatch_path words st
  | setGlobal name text =>
      refine .single ?_
      cases hset : st.stack.set 0 name text with
      | ok stack => exact .assign (Nat.succ_pos _) hset
      | error fault => exact .still st

theorem history_path (ops : List Operation) :
    ∀ st, Path st (env.history ops st) (ops.foldl env.operate st) := by
  induction ops with
  | nil => exact .nil
  | cons op more ih => exact fun st => (env.traceOperation_path st op).append (ih _)

end Env

/-! ## What scripts see -/

/-- A call of `global` links its names in the scope of its caller. -/
theorem Builtin.view_linkGlobals (names : List String) :
    ∀ st : State H, (linkGlobals st names).stack.view =
      names.foldl (fun v name => v.link st.stack.caller name) st.stack.view := by
  induction names with
  | nil => exact fun _ => rfl
  | cons name more ih =>
      intro st
      have hlink := ScopeStack.view_link st.stack.caller_lt_depth name
      have hmore := ih (linkGlobals st [name])
      have hcaller : (linkGlobals st [name]).stack.caller = st.stack.caller :=
        ScopeStack.caller_link ..
      rw [hcaller] at hmore
      rw [List.foldl_cons, ← hlink]
      exact hmore

/-- The global variables that a session lists are those that can be read at the global level. -/
theorem Session.mem_globals_iff {s : Session H} (h : s.state.stack.Scoped) (name text : String) :
    (name, text) ∈ s.globals ↔ s.state.stack.get 0 name = .ok text := by
  rw [Session.globals, Scope.mem_values_iff, h.get_eq, Variables.get, ScopeStack.view]
  simp only [ScopeStack.slot?_zero]
  cases s.state.stack.globals.find? name with
  | none => simp
  | some slot => cases slot <;> simp [Slot.text?]

/-- **Scoping.** A new interpreter goes through single steps, whatever is asked of it. In each state
on the way the global scope holds values only and every link leads to the global variable of its own
name, so that access by name is access to two scopes, `global` adds links and does nothing else, and
a session lists just the global variables that can be read. A name that is linked in the scope of a
call stays so until that scope is gone. -/
theorem every_state_has_two_scopes (env : Env Empty) (commands : Table (Handler Empty))
    (stream : Option String) (ops : List Operation) :
    let start : State Empty := { commands := commands, stream := stream }
    Path start (env.history ops start) (ops.foldl env.operate start) ∧
    (∀ st ∈ start :: (env.history ops start).map Moment.state,
      st.stack.Scoped ∧ st.stack.ActsAs st.stack.view ∧
      (∀ names, (Builtin.global.run names st).2.stack.view =
        names.foldl (fun v name => v.link st.stack.caller name) st.stack.view) ∧
      ∀ session : Session Empty, session.state = st →
        (session.globals.map Prod.fst).Nodup ∧
        ∀ name text, (name, text) ∈ session.globals ↔ st.stack.get 0 name = .ok text) ∧
    ∀ front m during rest, env.history ops start = front ++ m :: (during ++ rest) →
      ∀ k name, (m.state.stack.view.calls k).linked name = true →
        (∀ later ∈ during, k + 1 < later.state.stack.depth) →
          ∀ later ∈ during, (later.state.stack.view.calls k).linked name = true := by
  intro start
  have hpath := env.history_path ops start
  have hstart : start.stack.Scoped := .empty
  refine ⟨hpath, ?_, ?_⟩
  · intro st hst
    have hscoped := hpath.all_states_scoped hstart st hst
    refine ⟨hscoped, hscoped.actsAs, fun names => Builtin.view_linkGlobals names st, ?_⟩
    rintro session rfl
    constructor
    · exact Scope.nodup_values _
    · exact Session.mem_globals_iff hscoped
  · intro front m during rest heq k name hlinked live
    rw [heq] at hpath
    exact hpath.linked_during hstart hlinked live

end EmbeddedTcl
