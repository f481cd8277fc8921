import EmbeddedTcl.Interp.Dispatch

/-!
# Sessions

A session keeps an interpreter from one script to the next, with the commands and variables that a
host gives it. A reset starts over with just those.
-/

namespace EmbeddedTcl

/-- What a host sets a session up with. -/
structure Config (H : Type) where
  limits : Limits := {}
  host : H → List String → Program H
  commands : Table H := Table.empty
  globals : List (String × String) := []

structure Session (H : Type) where
  config : Config H
  state : State H

namespace Config

variable {H : Type}

/-- A new interpreter with the built-ins, the host's commands and the given variables. A command of
the host replaces a built-in of the same name. -/
def fresh (c : Config H) : Interpreter H :=
  { commands := Builtin.table.insertAll
      (c.commands.entries.map fun entry => (entry.1, .host entry.2))
    stack := { globals := Table.ofList (c.globals.map fun v => (v.1, .value v.2)) } }

def env (c : Config H) : Env H :=
  { limits := c.limits, host := c.host, fresh := c.fresh }

/-- Opens a session. With a stream, output goes there at once. -/
def start (c : Config H) (streamed : Bool) : Session H :=
  ⟨c, { toInterpreter := c.fresh, stream := if streamed then some "" else none }⟩

end Config

namespace Session

variable {H : Type}

/-- Evaluates a script and gives its value or its error. -/
def eval (s : Session H) (script : String) : Except Fault String × Session H :=
  match s.config.env.evaluate script s.state with
  | (outcome, state) => (outcome, { s with state := state.settle })

/-- Runs a script and gives its value or its error message, with the output collected. -/
def run (s : Session H) (script : String) : Except Fault RunResult × Session H :=
  match runCurrent s.config.env.evaluate script s.state with
  | (outcome, state) => (outcome, { s with state := state.settle })

def reset (s : Session H) : Session H :=
  { s with state := { s.state with toInterpreter := s.config.fresh } }

/-- Adds a command that a reset keeps. -/
def addCommand (s : Session H) (name : String) (h : H) : Session H :=
  { config := { s.config with commands := s.config.commands.insert name h }
    state := s.state.register name (.host h) }

/-- What has been logged since the session was as `before`, oldest entry first. -/
def loggedSince (s before : Session H) : List LogEntry :=
  (s.state.log.take (s.state.log.length - before.state.log.length)).reverse

/-- The global variables that hold values. -/
def globals (s : Session H) : List (String × String) :=
  s.state.stack.globals.values

end Session

end EmbeddedTcl
