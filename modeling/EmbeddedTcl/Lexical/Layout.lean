import EmbeddedTcl.Text.Blank

/-!
# Layout

Blanks and comments that may stand in front of a command. All scanning functions take the text
that is still to be read and give back a suffix of it.
-/

namespace EmbeddedTcl

def skipBlank (text : List Char) : List Char :=
  text.dropWhile isBlank

/-- A comment runs to the first newline that no backslash escapes, and takes it along. A backslash
pairs with a newline or a backslash after it and with nothing else. -/
def skipComment : List Char → List Char
  | [] => []
  | '\n' :: rest => rest
  | '\\' :: '\n' :: rest => skipComment rest
  | '\\' :: '\\' :: rest => skipComment rest
  | _ :: rest => skipComment rest

theorem skipBlank_suffix (text : List Char) : skipBlank text <:+ text :=
  List.dropWhile_suffix isBlank

theorem skipComment_suffix (text : List Char) : skipComment text <:+ text := by
  fun_induction skipComment text with
  | case1 => exact List.suffix_rfl
  | case2 rest => exact List.suffix_cons _ rest
  | case3 rest ih => exact (ih.trans (List.suffix_cons _ rest)).trans (List.suffix_cons _ _)
  | case4 rest ih => exact (ih.trans (List.suffix_cons _ rest)).trans (List.suffix_cons _ _)
  | case5 c rest _ _ _ ih => exact ih.trans (List.suffix_cons c rest)

/-- Skips blanks and whole comments up to the first character of a command. -/
def skipLayout (text : List Char) : List Char :=
  match _h : skipBlank text with
  | '#' :: rest => skipLayout (skipComment rest)
  | other => other
termination_by text.length
decreasing_by
  have h₁ := (skipBlank_suffix text).length_le
  have h₂ := (skipComment_suffix rest).length_le
  simp_all only [List.length_cons]
  omega

theorem skipLayout_suffix (text : List Char) : skipLayout text <:+ text := by
  fun_induction skipLayout text with
  | case1 text rest h ih =>
    have h₁ : '#' :: rest <:+ text := h ▸ skipBlank_suffix text
    exact ((ih.trans (skipComment_suffix rest)).trans (List.suffix_cons _ rest)).trans h₁
  | case2 text _ => exact skipBlank_suffix text

end EmbeddedTcl
