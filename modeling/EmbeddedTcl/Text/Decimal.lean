import EmbeddedTcl.Text.Blank
import EmbeddedTcl.Text.Digit

/-!
# Decimal integers

The integers that a text may spell: blanks around, a sign, and digits with single underscores
between them.
-/

namespace EmbeddedTcl

/-- Around a number the information separators are no blanks. -/
def isMargin (c : Char) : Bool :=
  isBlank c && !(0x1c ≤ c.toNat && c.toNat ≤ 0x1f)

/-- The longest run of digits with single underscores between them, and what follows it. There is
none if a further underscore comes first. -/
def readDigits : List Char → Option (List Nat × List Char)
  | '_' :: c :: rest => (digitValue? c).bind fun n => (readDigits rest).map fun r => (n :: r.1, r.2)
  | ['_'] => none
  | c :: rest =>
    match digitValue? c with
    | some n => (readDigits rest).map fun r => (n :: r.1, r.2)
    | none => some ([], c :: rest)
  | [] => some ([], [])

/-- Why a text spells no integer. -/
inductive IntegerError where
  | malformed
  | tooLong (digits : Nat)

/-- The most digits that an integer may be written with. -/
def maxDigits : Nat := 4300

/-- Reads digits and the margin after them. Too many digits are an error even if what follows is
one, too. -/
def readUnsigned (text : List Char) : Except IntegerError Nat :=
  match text with
  | '_' :: _ => .error .malformed
  | _ =>
    match readDigits text with
    | none => .error .malformed
    | some (digits, rest) =>
      if maxDigits < digits.length then .error (.tooLong digits.length)
      else if digits.isEmpty || !rest.all isMargin then .error .malformed
      else .ok (digits.foldl (fun value n => 10 * value + n) 0)

def readInteger (text : String) : Except IntegerError Int :=
  match text.toList.dropWhile isMargin with
  | '-' :: digits => (readUnsigned digits).map fun n => -(n : Int)
  | '+' :: digits => (readUnsigned digits).map fun n => (n : Int)
  | digits => (readUnsigned digits).map fun n => (n : Int)

end EmbeddedTcl
