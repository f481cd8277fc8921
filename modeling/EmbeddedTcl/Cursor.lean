import EmbeddedTcl.Error
import EmbeddedTcl.Lexical.Braced
import EmbeddedTcl.Lexical.Escape
import EmbeddedTcl.Lexical.Layout
import EmbeddedTcl.Lexical.Source
import EmbeddedTcl.Text.Position

/-!
# Cursors

A reading position in a text. A position never passes the end; it may be moved in front of the
text, where characters are found by counting from the end.
-/

namespace EmbeddedTcl

structure Cursor where
  text : List Char
  position : Int := 0

namespace Cursor

def ofString (text : String) : Cursor :=
  ⟨text.toList, 0⟩

def size (c : Cursor) : Nat :=
  c.text.length

def atEnd (c : Cursor) (offset : Int) : Bool :=
  decide ((c.size : Int) ≤ c.position + offset)

/-- The character `offset` places ahead; past the end there is only the empty text. -/
def peek (c : Cursor) (offset : Int) : Except Fault String :=
  if c.atEnd offset then .ok ""
  else
    match (place? c.size (c.position + offset)).bind (c.text[·]?) with
    | some char => .ok (String.ofList [char])
    | none => .error .outOfRange

def advance (c : Cursor) (n : Int) : Cursor :=
  { c with position := min (c.position + n) c.size }

def remaining (c : Cursor) : Int :=
  c.size - c.position

/-- The text between two signed positions. -/
def slice (c : Cursor) (start stop : Int) : List Char :=
  (c.text.take (bound c.size stop)).drop (bound c.size start)

/-- The characters from a position to the end, if the position can be read at all. In front of the
text it runs through the places counted from the end first. -/
def view? (c : Cursor) (position : Int) : Option (List Char) :=
  if 0 ≤ position then some (c.text.drop position.toNat)
  else if 0 ≤ position + c.size then some (c.text.drop (position + c.size).toNat ++ c.text)
  else none

/-- The cursor that has exactly `rest` still to read. -/
def withRest (c : Cursor) (rest : List Char) : Cursor :=
  { c with position := c.size - rest.length }

/-- The name that a reference stands for, cut out of the text by position. If a part of it starts in
front of the text and ends inside, its two positions need not enclose what was read. -/
def nameAt (c : Cursor) (text : List Char) (r : VarRef text) : String :=
  let start := (c.withRest (if text.head? = some '{' then text.drop 1 else text)).position
  let middle := start + r.base.length
  String.ofList (c.slice start middle ++ c.slice middle (middle + r.index.length))

def source (c : Cursor) : Source :=
  { size := c.size, nameOf := c.nameAt }

/-- Applies a skipping function to the text still to read. -/
def skip (f : List Char → List Char) (c : Cursor) : Except Fault Unit × Cursor :=
  match c.view? c.position with
  | none => (.error .outOfRange, c)
  | some text => (.ok (), c.withRest (f text))

/-- Reads the escape at the cursor. The cursor stays where it is if the form is not supported. -/
def readEscape (c : Cursor) : Except Fault (List Char) × Cursor :=
  match c.view? (c.position + 1) with
  | none => (.error .outOfRange, c)
  | some text =>
    match EmbeddedTcl.readEscape text with
    | .error (char, form) =>
      (.error (.script (.unsupportedEscape (String.ofList [char]) form.name c.position)), c)
    | .ok r => (.ok r.value, c.withRest r.rest)

/-- Reads the variable reference at the cursor. -/
def readVariable (c : Cursor) : Except Fault String × Cursor :=
  match c.view? (c.position + 1) with
  | none => (.error .outOfRange, c)
  | some text =>
    let r := VarRef.read text
    (.ok (c.nameAt text r), c.withRest r.rest)

/-- Reads the braced word at the cursor. If a brace has no partner the cursor ends up at the end. -/
def readBraced (c : Cursor) : Except Fault (List Char) × Cursor :=
  match c.view? (c.position + 1) with
  | none => (.error .outOfRange, c.advance 1)
  | some text =>
    match EmbeddedTcl.readBraced text with
    | .error unclosed =>
      let start := unclosed.elim c.position fun rest => (c.withRest rest).position
      (.error (.script (.unclosedBrace (some start))), c.withRest [])
    | .ok r => (.ok r.value, c.withRest r.rest)

def describe (c : Cursor) : String :=
  "Cursor(position=" ++ toString c.position ++ ", remaining=" ++ toString c.remaining ++ ")"

end Cursor

end EmbeddedTcl
