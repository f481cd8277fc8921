/-!
# White space

The blank characters are those with the Unicode white-space property and the four information
separators. `fields` cuts a text at runs of them.
-/

namespace EmbeddedTcl

/-- The blank code points, as closed ranges. -/
def blankRanges : List (Nat × Nat) :=
  [(0x09, 0x0d), (0x1c, 0x20), (0x85, 0x85), (0xa0, 0xa0), (0x1680, 0x1680), (0x2000, 0x200a),
    (0x2028, 0x2029), (0x202f, 0x202f), (0x205f, 0x205f), (0x3000, 0x3000)]

def isBlank (c : Char) : Bool :=
  blankRanges.any fun range => range.1 ≤ c.toNat && c.toNat ≤ range.2

/-- The empty text is not blank. -/
def isBlankText (text : String) : Bool :=
  !text.isEmpty && text.toList.all isBlank

theorem length_dropWhile_le (p : Char → Bool) (text : List Char) :
    (text.dropWhile p).length ≤ text.length :=
  (List.dropWhile_sublist p).length_le

/-- The longest pieces of a text that hold no blank. -/
def fields (text : List Char) : List (List Char) :=
  match _h : text.dropWhile isBlank with
  | [] => []
  | c :: rest =>
    (c :: rest.takeWhile fun d => !isBlank d) :: fields (rest.dropWhile fun d => !isBlank d)
termination_by text.length
decreasing_by
  have h₁ := length_dropWhile_le isBlank text
  have h₂ := length_dropWhile_le (fun d => !isBlank d) rest
  simp_all only [List.length_cons]
  omega

end EmbeddedTcl
