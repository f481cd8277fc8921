import EmbeddedTcl.Lexical.Read

/-!
# Braced words

The text between a brace and its partner is taken as it stands. Inner pairs of braces stay in it,
and four backslash pairs are reduced to their second character.
-/

namespace EmbeddedTcl

/-- The characters that a backslash protects inside braces. -/
def isBraceProtected (c : Char) : Bool :=
  c == '\n' || c == '}' || c == '{' || c == '\\'

/-- One unit of braced text, without its protecting backslash, and the text after it. -/
def braceUnit (c : Char) : List Char → Char × List Char
  | [] => (c, [])
  | d :: rest => if c = '\\' ∧ isBraceProtected d then (d, rest) else (c, d :: rest)

theorem braceUnit_suffix (c : Char) (rest : List Char) : (braceUnit c rest).2 <:+ rest := by
  cases rest with
  | nil => exact List.suffix_rfl
  | cons d rest =>
    simp only [braceUnit]
    split
    · exact List.suffix_cons d rest
    · exact List.suffix_rfl

/-- Reads what follows an opening brace. If there is a brace without a partner, a failure gives the
text from the innermost such brace on, or nothing if that is the brace already read. -/
def readBraced (text : List Char) : Except (Option (List Char)) (Read text) :=
  match text with
  | [] => .error none
  | c :: rest =>
    if c = '}' then .ok ⟨[], rest, List.suffix_cons c rest⟩
    else if c = '{' then
      match readBraced rest with
      | .error unclosed => .error (some (unclosed.getD (c :: rest)))
      | .ok inner =>
        match readBraced inner.rest with
        | .error unclosed => .error unclosed
        | .ok outer =>
          .ok (outer.after ('{' :: (inner.value ++ ['}']))
            (inner.within.trans (List.suffix_cons c rest)))
    else
      match readBraced (braceUnit c rest).2 with
      | .error unclosed => .error unclosed
      | .ok more =>
        .ok (more.after [(braceUnit c rest).1]
          ((braceUnit_suffix c rest).trans (List.suffix_cons c rest)))
termination_by text.length
decreasing_by
  · simp
  · have := inner.within.length_le
    simp only [List.length_cons]
    omega
  · have := (braceUnit_suffix c rest).length_le
    simp only [List.length_cons]
    omega

end EmbeddedTcl
