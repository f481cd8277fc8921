import EmbeddedTcl.Table

/-!
# Scopes

A scope gives each variable name a slot: a value of its own, or a link to a name in another frame.
-/

namespace EmbeddedTcl

inductive Slot where
  | value (text : String)
  | link (frame : Int) (name : String)
  deriving DecidableEq

abbrev Scope := Table Slot

namespace Scope

/-- The value that a name holds in this very scope. -/
def read? (s : Scope) (name : String) : Option String :=
  match s.find? name with
  | some (.value text) => some text
  | _ => none

def assign (s : Scope) (name text : String) : Scope :=
  s.insert name (.value text)

/-- The name that a link aims at: its own unless another one is given. -/
def linkTarget (name : String) : Option String → String
  | some target => if target = "" then name else target
  | none => name

/-- Redirects `name` to a name in the frame numbered `frame`. A name is not linked to itself;
`self` is the number of this scope's own frame. -/
def link (s : Scope) (self : Int) (name : String) (frame : Int) (target : Option String) : Scope :=
  if frame = self ∧ linkTarget name target = name then s
  else s.insert name (.link frame (linkTarget name target))

/-- The names that hold values here, with their values. -/
def values (s : Scope) : List (String × String) :=
  s.entries.filterMap fun entry =>
    match entry.2 with
    | .value text => some (entry.1, text)
    | .link _ _ => none

end Scope

end EmbeddedTcl
