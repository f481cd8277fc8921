import EmbeddedTcl.Error
import EmbeddedTcl.Scope.Basic
import EmbeddedTcl.Text.Position

/-!
# Scope stacks

The scopes of an evaluation: the global one, which is always there, and one for each call in
progress. A scope is addressed by its level, 0 for the global scope and one more for each call.
-/

namespace EmbeddedTcl

/-- `locals` has the innermost call first. -/
structure ScopeStack where
  globals : Scope := Table.empty
  locals : List Scope := []

namespace ScopeStack

def depth (s : ScopeStack) : Nat :=
  s.locals.length + 1

/-- The level of the innermost scope. -/
def top (s : ScopeStack) : Nat :=
  s.locals.length

/-- The level of the scope that the innermost call was made from. -/
def caller (s : ScopeStack) : Nat :=
  s.locals.length - 1

/-- All scopes, the global one first. -/
def toList (s : ScopeStack) : List Scope :=
  s.globals :: s.locals.reverse

def scope? (s : ScopeStack) (level : Nat) : Option Scope :=
  s.toList[level]?

def modify (s : ScopeStack) (level : Nat) (f : Scope → Scope) : ScopeStack :=
  match level with
  | 0 => { s with globals := f s.globals }
  | n + 1 => { s with locals := (s.locals.reverse.modify n f).reverse }

def push (s : ScopeStack) : ScopeStack :=
  { s with locals := Table.empty :: s.locals }

/-- Removes the innermost call, if there is one. -/
def drop (s : ScopeStack) : ScopeStack :=
  { s with locals := s.locals.tail }

def pop (s : ScopeStack) : Except Fault ScopeStack :=
  if s.locals.isEmpty then .error .globalScopePopped else .ok s.drop

/-- Where an access to `name` from `level` goes: through one link at most. -/
def resolve (s : ScopeStack) (level : Nat) (name : String) : Except Fault (Nat × String) :=
  match (s.scope? level).bind (·.find? name) with
  | some (.link frame target) =>
    match place? s.depth frame with
    | some other => .ok (other, target)
    | none => .error .outOfRange
  | _ => .ok (level, name)

def read? (s : ScopeStack) (level : Nat) (name : String) : Option String :=
  (s.scope? level).bind (·.read? name)

/-- The value of `name` as seen from `level`. A name that leads to another link has none. -/
def get (s : ScopeStack) (level : Nat) (name : String) : Except Fault String :=
  match s.resolve level name with
  | .error fault => .error fault
  | .ok (other, target) =>
    match s.read? other target with
    | some text => .ok text
    | none => .error (.script (.unknownVariable name))

def set (s : ScopeStack) (level : Nat) (name text : String) : Except Fault ScopeStack :=
  match s.resolve level name with
  | .error fault => .error fault
  | .ok (other, target) => .ok (s.modify other (·.assign target text))

def has (s : ScopeStack) (level : Nat) (name : String) : Except Fault Bool :=
  match s.resolve level name with
  | .error fault => .error fault
  | .ok (other, target) => .ok (s.read? other target).isSome

def link (s : ScopeStack) (level : Nat) (name : String) (frame : Int)
    (target : Option String) : ScopeStack :=
  s.modify level (·.link level name frame target)

/-- Removes the slot of `name` at `level` itself; what it linked to is left alone. -/
def unset (s : ScopeStack) (level : Nat) (name : String) : Except Fault ScopeStack :=
  match (s.scope? level).bind (·.find? name) with
  | some _ => .ok (s.modify level (·.erase name))
  | none => .error (.script (.unknownVariable name))

/-- Gives the innermost scope a value for each parameter that has an argument. -/
def bind (s : ScopeStack) (params args : List String) : ScopeStack :=
  s.modify s.top fun scope =>
    (params.zip args).foldl (fun scope pair => scope.assign pair.1 pair.2) scope

end ScopeStack

end EmbeddedTcl
