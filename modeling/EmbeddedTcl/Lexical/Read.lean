/-!
# Reading from the front

A value read off the front of a text, with what is left of it.
-/

namespace EmbeddedTcl

structure Read (text : List Char) where
  value : List Char
  rest : List Char
  within : rest <:+ text

/-- Puts what was read before in front, and counts the reading from there. -/
def Read.after {text whole : List Char} (front : List Char) (r : Read text)
    (h : text <:+ whole) : Read whole :=
  ⟨front ++ r.value, r.rest, r.within.trans h⟩

end EmbeddedTcl
