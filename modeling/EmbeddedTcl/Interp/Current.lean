import EmbeddedTcl.Interp.Program

/-!
# The current interpreter

A session works with one interpreter at a time. A reset puts a fresh one in its place even while
the old one is running a command; from then on the session's own operations act on the fresh one.
-/

namespace EmbeddedTcl

variable {H : Type}

/-- Evaluates a script from a given state. -/
abbrev Evaluator (H : Type) := String → State H → Except Fault String × State H

namespace State

/-- The interpreter that the session's own operations act on. -/
def current (st : State H) : Interpreter H :=
  st.replacement.getD st.toInterpreter

def modifyCurrent (st : State H) (f : Interpreter H → Interpreter H) : State H :=
  match st.replacement with
  | none => { st with toInterpreter := f st.toInterpreter }
  | some core => { st with replacement := some (f core) }

def takeCurrentOutput (st : State H) : String × State H :=
  (st.current.output, st.modifyCurrent fun core => { core with output := "" })

/-- Puts the current interpreter to work once the old one has finished. -/
def settle (st : State H) : State H :=
  { st with toInterpreter := st.current, replacement := none }

theorem takeCurrentOutput_of_current {st : State H} (h : st.replacement = none) :
    st.takeCurrentOutput = (st.output, { st with output := "" }) := by
  obtain ⟨core, replacement, stream, log⟩ := st
  cases h
  rfl

theorem settle_of_current {st : State H} (h : st.replacement = none) : st.settle = st := by
  obtain ⟨core, replacement, stream, log⟩ := st
  cases h
  rfl

end State

/-- Evaluates a script in the current interpreter: by `running` if that is the one at work, and
otherwise by `renewed`, beside it. -/
def evaluateCurrent (running renewed : Evaluator H) : Evaluator H := fun script st =>
  match st.replacement with
  | none => running script st
  | some core =>
    match renewed script { st with toInterpreter := core, replacement := none } with
    | (outcome, st') =>
      (outcome, { st' with toInterpreter := st.toInterpreter, replacement := some st'.current })

/-- Runs a script in the current interpreter and collects what it wrote. Output that was waiting is
dropped first. A script error becomes part of the result; any other fault is passed on. -/
def runCurrent (eval : Evaluator H) (script : String) (st : State H) :
    Except Fault RunResult × State H :=
  match eval script st.takeCurrentOutput.2 with
  | (.ok value, st') =>
    (.ok { result := value, stdout := st'.takeCurrentOutput.1 }, st'.takeCurrentOutput.2)
  | (.error (.script error), st') =>
    (.ok { stdout := st'.takeCurrentOutput.1, stderr := "error: " ++ error.message ++ "\n",
           exitCode := 1 }, st'.takeCurrentOutput.2)
  | (.error fault, st') => (.error fault, st')

end EmbeddedTcl
