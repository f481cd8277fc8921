import EmbeddedTcl.Scope.Stack
import EmbeddedTcl.Text.Quoted

/-!
# Interpreter state

What an interpreter holds between and during evaluations. `H` names the commands that a host adds
to the language; with `H = Empty` there are built-ins and procedures only.
-/

namespace EmbeddedTcl

/-- How a command or script finished. A returning completion ends the script that sees it. -/
structure Completion where
  value : String := ""
  returning : Bool := false
  deriving DecidableEq

/-- Bounds on the commands dispatched over an interpreter's life and on the live scopes. -/
structure Limits where
  maxCommands : Int := 10000
  maxDepth : Int := 200
  deriving DecidableEq

namespace Limits

def commandsError (l : Limits) : Error :=
  .executionLimit ("too many commands executed (>" ++ toString l.maxCommands ++
    "), increase limits.max_command_count") "commands"

def depthError (l : Limits) : Error :=
  .executionLimit ("too many nested calls (>" ++ toString l.maxDepth ++
    "), increase limits.max_call_depth") "depth"

/-- How many more calls may be nested when `depth` scopes are live. -/
def room (l : Limits) (depth : Nat) : Nat :=
  (l.maxDepth - depth).toNat

end Limits

inductive Builtin where
  | set
  | global
  | puts
  | proc
  | ret
  deriving DecidableEq

/-- A command defined by a script. -/
structure Procedure where
  name : String
  params : List String
  body : String
  deriving DecidableEq

def Procedure.describe (p : Procedure) : String :=
  "Procedure(name=" ++ Quoted.ofString p.name ++ ", params=" ++ Quoted.ofList p.params ++ ")"

inductive Handler (H : Type) where
  | builtin (b : Builtin)
  | procedure (p : Procedure)
  | host (h : H)

/-- What a log of an evaluation records. -/
inductive LogEntry where
  | dispatching (name : String) (args : List String) (depth : Nat)
  | defining (name params : String)
  | registering (name : String)
  | linking (name : String) (level : Nat)
  deriving DecidableEq

/-- One interpreter. `pendingReturn` is set while the words of a command are read if a command
embedded in them returned; `returnFlag` is set by a running command that wants to return. -/
structure Interpreter (H : Type) where
  stack : ScopeStack := {}
  commands : Table (Handler H) := Table.empty
  commandCount : Nat := 0
  output : String := ""
  pendingReturn : Bool := false
  returnFlag : Bool := false

/-- An interpreter at work, with what it shares with others: the interpreter that a reset has put
in its place, if any, the stream that output goes to, if any, and the log, newest entry first. -/
structure State (H : Type) extends Interpreter H where
  replacement : Option (Interpreter H) := none
  stream : Option String := none
  log : List LogEntry := []

namespace State

variable {H : Type}

def note (st : State H) (entry : LogEntry) : State H :=
  { st with log := entry :: st.log }

/-- Sends text to the stream, or keeps it until it is taken. -/
def write (st : State H) (text : String) : State H :=
  match st.stream with
  | some sent => { st with stream := some (sent ++ text) }
  | none => { st with output := st.output ++ text }

def takeOutput (st : State H) : String × State H :=
  (st.output, { st with output := "" })

def takePending (st : State H) : Bool × State H :=
  (st.pendingReturn, { st with pendingReturn := false })

def register (st : State H) (name : String) (handler : Handler H) : State H :=
  { st.note (.registering name) with commands := st.commands.insert name handler }

/-- The value of a variable as seen from the innermost scope. -/
def lookup (st : State H) (name : String) : Except Fault String :=
  st.stack.get st.stack.top name

end State

end EmbeddedTcl
