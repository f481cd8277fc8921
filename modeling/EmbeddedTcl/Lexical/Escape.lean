import EmbeddedTcl.Lexical.Read

/-!
# Backslash escapes

What a backslash and the text after it stand for. Numeric forms are refused rather than read as
something else.
-/

namespace EmbeddedTcl

inductive EscapeForm where
  | octal
  | hex
  | unicode
  deriving DecidableEq

namespace EscapeForm

def name : EscapeForm → String
  | octal => "octal"
  | hex => "hex"
  | unicode => "unicode"

/-- The numeric form that a character after a backslash opens. -/
def ofChar? (c : Char) : Option EscapeForm :=
  if '0' ≤ c ∧ c ≤ '7' then some octal
  else if c = 'x' then some hex
  else if c = 'u' then some unicode
  else none

end EscapeForm

/-- Seven letters name control characters; any other character stands for itself. -/
def escapeValue : Char → Char
  | 'a' => '\x07'
  | 'b' => '\x08'
  | 'f' => '\x0c'
  | 'n' => '\n'
  | 'r' => '\r'
  | 't' => '\t'
  | 'v' => '\x0b'
  | c => c

/-- Reads what follows a backslash. At the end of the text the backslash stands for nothing. -/
def readEscape : (text : List Char) → Except (Char × EscapeForm) (Read text)
  | [] => .ok ⟨[], [], List.suffix_rfl⟩
  | c :: rest =>
    match EscapeForm.ofChar? c with
    | some form => .error (c, form)
    | none => .ok ⟨[escapeValue c], rest, List.suffix_cons c rest⟩

end EmbeddedTcl
