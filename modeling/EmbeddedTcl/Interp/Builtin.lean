import EmbeddedTcl.Interp.State
import EmbeddedTcl.Text.Blank

/-!
# Built-in commands

Five commands that are always known. They run in a scope of their own and act on the scope of
their caller.
-/

namespace EmbeddedTcl.Builtin

def name : Builtin → String
  | set => "set"
  | global => "global"
  | puts => "puts"
  | proc => "proc"
  | ret => "return"

def usage : Builtin → String
  | set => "set varName ?newValue?"
  | global => "global ?varName ...?"
  | puts => "puts ?-nonewline? string"
  | proc => "proc name args body"
  | ret => "return ?value?"

def all : List Builtin :=
  [set, global, puts, proc, ret]

def ofName? (text : String) : Option Builtin :=
  all.find? fun b => b.name == text

def table {H : Type} : Table (Handler H) :=
  Table.ofList (all.map fun b => (b.name, .builtin b))

variable {H : Type}

/-- Links each name in the caller's scope to the global one of the same name. -/
def linkGlobals (st : State H) (names : List String) : State H :=
  names.foldl (fun st name =>
    let st := st.note (.linking name st.stack.caller)
    { st with stack := st.stack.link st.stack.caller name 0 none }) st

/-- Runs a built-in in the scope made for it. -/
def run (b : Builtin) (args : List String) (st : State H) : Except Fault String × State H :=
  match b, args with
  | set, [name] => (st.stack.get st.stack.caller name, st)
  | set, [name, text] =>
    match st.stack.set st.stack.caller name text with
    | .ok stack => (.ok text, { st with stack })
    | .error fault => (.error fault, st)
  | global, names => (.ok "", linkGlobals st names)
  | puts, [text] => (.ok "", st.write (text ++ "\n"))
  | puts, ["-nonewline", text] => (.ok "", st.write text)
  | proc, [name, params, body] =>
    let procedure : Procedure := ⟨name, (fields params.toList).map String.ofList, body⟩
    (.ok "", (st.note (.defining name params)).register name (.procedure procedure))
  | ret, [] => (.ok "", { st with returnFlag := true })
  | ret, [text] => (.ok text, { st with returnFlag := true })
  | b, _ => (.error (.script (.wrongArgs b.usage)), st)

end EmbeddedTcl.Builtin
