import EmbeddedTcl.Lexical.VarRef

/-!
# Sources

The text that is being read, as far as reading depends on all of it: the positions in messages
count from its start, and the names of variables are cut out of it.
-/

namespace EmbeddedTcl

/-- `nameOf text r` is the name that the reference `r` stands for, which was read off the front of
`text`. -/
structure Source where
  size : Nat
  nameOf : (text : List Char) → VarRef text → String := fun _ r => r.name

namespace Source

/-- A text that is read from its start. A name is what was read. -/
def ofText (text : List Char) : Source :=
  { size := text.length }

/-- Where the text stands of which `rest` is still to be read. -/
def position (s : Source) (rest : List Char) : Int :=
  s.size - rest.length

end Source

end EmbeddedTcl
