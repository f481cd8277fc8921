import EmbeddedTcl.Text.Invisible

/-!
# Quoted display

A text is shown between quotes so that it can be told apart from its surroundings: single quotes,
or double quotes when only that avoids a backslash. A character that could not be seen is shown by
its number.
-/

namespace EmbeddedTcl.Quoted

def hexDigit (n : Nat) : Char :=
  if n < 10 then Char.ofNat (48 + n) else Char.ofNat (87 + n)

/-- The last `width` hexadecimal digits of a number. -/
def hex (n : Nat) : (width : Nat) → List Char
  | 0 => []
  | width + 1 => hex (n / 16) width ++ [hexDigit (n % 16)]

/-- The number of a character, in two, four or eight digits. -/
def escaped (c : Char) : List Char :=
  if c.toNat < 0x100 then '\\' :: 'x' :: hex c.toNat 2
  else if c.toNat < 0x10000 then '\\' :: 'u' :: hex c.toNat 4
  else '\\' :: 'U' :: hex c.toNat 8

def showChar (mark c : Char) : List Char :=
  if c == '\\' || c == mark then ['\\', c]
  else if c == '\n' then ['\\', 'n']
  else if c == '\r' then ['\\', 'r']
  else if c == '\t' then ['\\', 't']
  else if isInvisible c then escaped c
  else [c]

def markFor (text : List Char) : Char :=
  if text.contains '\'' && !text.contains '"' then '"' else '\''

def ofString (text : String) : String :=
  let mark := markFor text.toList
  String.ofList (mark :: (text.toList.flatMap (showChar mark) ++ [mark]))

def ofList (texts : List String) : String :=
  "[" ++ ", ".intercalate (texts.map ofString) ++ "]"

/-- The first `width` characters of a display, which may lose its closing quote. -/
def cutTo (width : Nat) (display : String) : String :=
  String.ofList (display.toList.take width)

end EmbeddedTcl.Quoted
