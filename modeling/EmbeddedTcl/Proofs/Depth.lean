import EmbeddedTcl.Interp.Dispatch
import EmbeddedTcl.Proofs.Lockstep
import EmbeddedTcl.Proofs.ScopeLaws

/-!
# Scopes in pairs

A command gets a scope of its own, which is gone when it ends, however it ends. So evaluation
leaves as many scopes as it found, whatever it runs, host commands included, and a command that is
reached at any depth of brackets may nest as many calls as the one it is embedded in.
-/

namespace EmbeddedTcl

variable {H : Type}

/-- A dispatcher that leaves as many scopes as it found. -/
def Dispatcher.Balanced (d : Dispatcher H) : Prop :=
  ∀ words st, (d words st).2.stack.depth = st.stack.depth

theorem Dispatcher.Balanced.keeps {d : Dispatcher H} (hd : d.Balanced) (n : Nat) :
    d.Keeps fun st => st.stack.depth = n :=
  fun words st h _ => (hd words st).trans h

theorem depth_unmarked (n : Nat) : Unmarked fun st : State H => st.stack.depth = n :=
  fun _ _ h => h

/-! ## Built-ins -/

/-- What a built-in can do in a state: all outcomes there are, with the state that each leaves. -/
inductive Builtin.Does (st : State H) : Builtin → Outcome H String → Prop where
  | fails (b : Builtin) (fault : Fault) : Does st b (.error fault, st)
  | reads (text : String) : Does st set (.ok text, st)
  | assigns {name text : String} {stack : ScopeStack}
      (h : st.stack.set st.stack.caller name text = .ok stack) :
      Does st set (.ok text, { st with stack })
  | links (names : List String) : Does st global (.ok "", linkGlobals st names)
  | writes (text : String) : Does st puts (.ok "", st.write text)
  | defines (entry : LogEntry) (name : String) (p : Procedure) :
      Does st proc (.ok "", (st.note entry).register name (.procedure p))
  | returns (text : String) : Does st ret (.ok text, { st with returnFlag := true })

theorem Builtin.run_does (b : Builtin) (args : List String) (st : State H) :
    b.Does st (b.run args st) := by
  unfold Builtin.run
  split
  case h_1 name =>
    cases st.stack.get st.stack.caller name with
    | ok text => exact .reads text
    | error fault => exact .fails _ fault
  case h_2 name text =>
    split
    · rename_i h
      exact .assigns h
    · exact .fails _ _
  case h_3 => exact .links args
  case h_4 text => exact .writes _
  case h_5 text => exact .writes text
  case h_6 => exact .defines ..
  case h_7 => exact .returns ""
  case h_8 text => exact .returns text
  case h_9 => exact .fails _ _

/-- Links change scopes and are logged; they leave all else alone. -/
theorem Builtin.linkGlobals_eq (names : List String) (st : State H) :
    ∃ stack log, linkGlobals st names = { st with stack, log } ∧ stack.depth = st.stack.depth := by
  induction names generalizing st with
  | nil => exact ⟨_, _, rfl, rfl⟩
  | cons name more ih =>
      obtain ⟨stack, log, heq, hdepth⟩ := ih (linkGlobals st [name])
      exact ⟨stack, log, heq, hdepth.trans (ScopeStack.depth_link ..)⟩

/-- Output goes to the stream or is kept, and all else is left alone. -/
theorem State.write_eq (st : State H) (text : String) :
    ∃ stream output, st.write text = { st with stream, output } := by
  unfold State.write
  split
  · exact ⟨_, _, rfl⟩
  · exact ⟨_, _, rfl⟩

theorem Builtin.Does.depth {b : Builtin} {st : State H} {o : Outcome H String} (h : b.Does st o) :
    o.2.stack.depth = st.stack.depth := by
  cases h with
  | assigns h => exact ScopeStack.depth_set h
  | links names =>
      obtain ⟨stack, log, heq, hdepth⟩ := linkGlobals_eq names st
      rw [heq]
      exact hdepth
  | writes text =>
      obtain ⟨stream, output, heq⟩ := st.write_eq text
      rw [heq]
  | _ => rfl

theorem Builtin.Does.commandCount {b : Builtin} {st : State H} {o : Outcome H String}
    (h : b.Does st o) : o.2.commandCount = st.commandCount := by
  cases h with
  | links names =>
      obtain ⟨stack, log, heq, _⟩ := linkGlobals_eq names st
      rw [heq]
  | writes text =>
      obtain ⟨stream, output, heq⟩ := st.write_eq text
      rw [heq]
  | _ => rfl

section

variable {d : Dispatcher H}

theorem Dispatcher.Balanced.evaluate (hd : d.Balanced) (script : String) (st : State H) :
    (evaluate d script st).2.stack.depth = st.stack.depth :=
  evaluate_keeps (depth_unmarked _) (hd.keeps _) script rfl

theorem Dispatcher.Balanced.evaluateScript (hd : d.Balanced) (script : String) (st : State H) :
    (evaluateScript d script st).2.stack.depth = st.stack.depth :=
  evaluateScript_keeps (depth_unmarked _) (hd.keeps _) script rfl

/-! ## Host commands -/

theorem State.depth_withStack (st : State H) (change : Except Fault ScopeStack)
    (h : ∀ stack, change = .ok stack → stack.depth = st.stack.depth) :
    (st.withStack change).2.stack.depth = st.stack.depth := by
  cases change with
  | ok stack => exact h stack rfl
  | error fault => rfl

theorem State.depth_takeCurrentOutput (st : State H) :
    st.takeCurrentOutput.2.stack.depth = st.stack.depth := by
  unfold takeCurrentOutput modifyCurrent
  split <;> rfl

theorem depth_evaluateCurrent (hd : d.Balanced) (renewed : Evaluator H) (script : String)
    (st : State H) :
    (evaluateCurrent (evaluate d) renewed script st).2.stack.depth = st.stack.depth := by
  unfold evaluateCurrent
  split
  · exact hd.evaluate script st
  · rfl

theorem depth_runCurrent (hd : d.Balanced) (renewed : Evaluator H) (script : String)
    (st : State H) :
    (runCurrent (evaluateCurrent (evaluate d) renewed) script st).2.stack.depth =
      st.stack.depth := by
  have h := depth_evaluateCurrent hd renewed script st.takeCurrentOutput.2
  rw [st.depth_takeCurrentOutput] at h
  unfold runCurrent
  split
  all_goals
    rename_i heq
    rw [heq] at h
  · exact (State.depth_takeCurrentOutput _).trans h
  · exact (State.depth_takeCurrentOutput _).trans h
  · exact h

theorem Request.depth_perform (env : Env H) (hd : d.Balanced) (renewed : Evaluator H)
    (q : Request H) : ∀ st : State H,
      (q.perform env d renewed st).2.stack.depth = st.stack.depth := by
  intro st
  cases q with
  | evaluate script => exact hd.evaluate script st
  | evaluateScript script => exact hd.evaluateScript script st
  | dispatch words => exact hd words st
  | set name text => exact st.depth_withStack _ fun _ h => ScopeStack.depth_set h
  | unset name => exact st.depth_withStack _ fun _ h => ScopeStack.depth_unset h
  | link name frame target => exact ScopeStack.depth_link ..
  | write text =>
      obtain ⟨stream, output, heq⟩ := st.write_eq text
      show (st.write text).stack.depth = st.stack.depth
      rw [heq]
  | sessionRun script => exact depth_runCurrent hd renewed script st
  | sessionEval script => exact depth_evaluateCurrent hd renewed script st
  | _ => rfl

theorem Program.depth_run (env : Env H) (hd : d.Balanced) (renewed : Evaluator H)
    (program : Program H) : ∀ st : State H,
      (program.run env d renewed st).2.stack.depth = st.stack.depth := by
  induction program with
  | reply r => exact fun _ => rfl
  | fail fault => exact fun _ => rfl
  | ask request next ih =>
      intro st
      rw [Program.run]
      exact (ih _ _).trans (request.depth_perform env hd renewed st)

/-! ## Dispatch -/

theorem Handler.run_builtin (env : Env H) (d : Dispatcher H) (renewed : Evaluator H)
    (args : List String) (st : State H) (b : Builtin) :
    (Handler.builtin b).run env d renewed args st = Outcome.map .text (b.run args st) := by
  rw [Handler.run]
  rcases b.run args st with ⟨_ | _, _⟩ <;> rfl

theorem Handler.run_procedure (env : Env H) (d : Dispatcher H) (renewed : Evaluator H)
    (args : List String) (st : State H) (p : Procedure) :
    (Handler.procedure p).run env d renewed args st =
      Outcome.map (fun completion => .text completion.value)
        (evaluateScript d p.body { st with stack := st.stack.bind p.params args }) := by
  rw [Handler.run]
  rcases evaluateScript d p.body { st with stack := st.stack.bind p.params args } with ⟨_ | _, _⟩
  · rfl
  · rfl

theorem Handler.depth_run (env : Env H) (hd : d.Balanced) (renewed : Evaluator H)
    (args : List String) (st : State H) (handler : Handler H) :
    (handler.run env d renewed args st).2.stack.depth = st.stack.depth := by
  cases handler with
  | builtin b =>
      rw [run_builtin, Outcome.snd_map]
      exact (b.run_does args st).depth
  | procedure p =>
      rw [run_procedure, Outcome.snd_map, hd.evaluateScript]
      exact ScopeStack.depth_bind ..
  | host h => exact (env.host h args).depth_run env hd renewed st

/-- The state in which a command starts to run. -/
def State.inside (st : State H) : State H :=
  { st with stack := st.stack.push, returnFlag := false }

/-- The state after a command has run. -/
def State.leave (st : State H) : State H :=
  { st with stack := st.stack.drop, returnFlag := false }

theorem callHandler_eq (env : Env H) (d : Dispatcher H) (renewed : Evaluator H)
    (handler : Handler H) (args : List String) (st : State H) :
    callHandler env d renewed handler args st =
      ((handler.run env d renewed args st.inside).1.map fun reply =>
          reply.toCompletion (handler.run env d renewed args st.inside).2.returnFlag,
        (handler.run env d renewed args st.inside).2.leave) := by
  rw [callHandler, State.inside]
  rcases handler.run env d renewed args { st with stack := st.stack.push, returnFlag := false }
    with ⟨_ | _, _⟩ <;> rfl

theorem depth_callHandler (env : Env H) (hd : d.Balanced) (renewed : Evaluator H)
    (handler : Handler H) (args : List String) (st : State H) :
    (callHandler env d renewed handler args st).2.stack.depth = st.stack.depth := by
  rw [callHandler_eq]
  exact ScopeStack.depth_drop (handler.depth_run env hd renewed args st.inside)

theorem enter_balanced (env : Env H) (renewed : Evaluator H) {inner : Option (Dispatcher H)}
    (h : ∀ d ∈ inner, d.Balanced) : (enter env renewed inner).Balanced := by
  intro words st
  cases words with
  | nil => rfl
  | cons name args =>
      simp only [enter]
      split
      · rfl
      split
      · rfl
      split
      · rfl
      · exact depth_callHandler env (h _ rfl) renewed _ args _

end

theorem Limits.room_succ {l : Limits} {depth room : Nat} (h : l.room depth = room + 1) :
    l.room (depth + 1) = room := by
  simp only [Limits.room] at *
  omega

theorem dispatchWith_balanced (env : Env H) (renewed : Evaluator H) (room : Nat) :
    (dispatchWith env renewed room).Balanced := by
  induction room with
  | zero => exact enter_balanced env renewed (by simp)
  | succ room ih =>
      refine enter_balanced env renewed ?_
      rintro d ⟨⟩
      exact ih

namespace Env

theorem dispatcher_balanced (env : Env H) (replaced room : Nat) :
    (env.dispatcher replaced room).Balanced := by
  cases replaced <;> exact dispatchWith_balanced env _ room

/-- **Every dispatch leaves as many scopes as it found.** -/
theorem dispatch_balanced (env : Env H) : Dispatcher.Balanced env.dispatch :=
  fun words st => env.dispatcher_balanced _ _ words st

/-- While the number of scopes is what it was, the dispatcher chosen at the start is the one that
would be chosen now. -/
theorem entry_agree (env : Env H) (st : State H) :
    Dispatchers.Agree (fun s s' : State H => s = s' ∧ s.stack.depth = st.stack.depth)
      (env.entry st) env.dispatch := by
  rintro words s _ ⟨rfl, h⟩ _
  have heq : env.entry st words s = env.dispatch words s := by
    rw [Env.dispatch, Env.entry, Env.entry, h]
  exact ⟨congrArg Prod.fst heq, congrArg Prod.snd heq, (env.dispatcher_balanced _ _ words s).trans h⟩

theorem evalWords_entry (env : Env H) (words : List Word) (st : State H) :
    evalWords (env.entry st) words st = evalWords env.dispatch words st :=
  (evalWords_agree (depth_unmarked _).lockstep (env.entry_agree st) words ⟨rfl, rfl⟩).eq

theorem evaluateScript_run (env : Env H) (script : String) (st : State H) :
    env.evaluateScript script st = (Script.ofString script).run env.dispatch {} st := by
  rw [Env.evaluateScript, EmbeddedTcl.evaluateScript_eq_run]
  exact (Script.run_agree (depth_unmarked _).lockstep (env.entry_agree st) _ {} ⟨rfl, rfl⟩).eq

theorem raise_entry {α : Type} (env : Env H) (m : Malformed) (st : State H) :
    (m.raise (env.entry st) st : Outcome H α) = m.raise env.dispatch st :=
  (m.raise_agree (depth_unmarked _).lockstep (env.entry_agree st) ⟨rfl, rfl⟩).eq

end Env

end EmbeddedTcl
