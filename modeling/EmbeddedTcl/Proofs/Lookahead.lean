import EmbeddedTcl.Proofs.ParseFirst

/-!
# Looking ahead

How much of a text a reader has looked at when it stops. A reader that *peeks* knows the character
after what it has read and nothing beyond; one that *closes* has taken a last character of its own
and does not know what comes next. Each step of reading a command does one or the other, as long as
it stops in front of the end of the text, and a peek that is followed by a step that closes is one
that closes. So a command that ends before its text does is closed, whatever is nested in it.

At the end of a text this is not so: a bracket, a brace after a dollar sign or a comment that is
open there counts as closed.
-/

namespace EmbeddedTcl

variable {α β : Type}

/-- Reads a value off the front of a text, and gives what is left of it. -/
abbrev Reads (α : Type) := List Char → Option (α × List Char)

namespace Reads

/-- Reads on where `r` has stopped. -/
def andThen (r : Reads α) (next : α → Reads β) : Reads β := fun text =>
  (r text).bind fun read => next read.1 read.2

def map (f : α → β) (r : Reads α) : Reads β := fun text =>
  (r text).map fun read => (f read.1, read.2)

/-! ## Peeking and closing -/

/-- If `r` stops in front of a character of `text`, then `r'` stops there too in every text that is
the same up to and including this character. -/
def Peeks (r r' : Reads α) (text : List Char) : Prop :=
  ∀ value next more, r text = some (value, next :: more) →
    ∃ front, text = front ++ next :: more ∧
      ∀ more', r' (front ++ next :: more') = some (value, next :: more')

/-- If `r` stops in front of a character of `text`, then it has read something, and `r'` stops there
too in every text that begins with what was read. -/
def Closes (r r' : Reads α) (text : List Char) : Prop :=
  ∀ value next more, r text = some (value, next :: more) →
    ∃ front, front ≠ [] ∧ text = front ++ next :: more ∧ ∀ u, r' (front ++ u) = some (value, u)

section

variable {r r' : Reads α} {text : List Char}

theorem Closes.peeks (h : Closes r r' text) : Peeks r r' text := by
  intro value next more hread
  obtain ⟨front, _, heq, hfront⟩ := h value next more hread
  exact ⟨front, heq, fun more' => hfront (next :: more')⟩

theorem Peeks.map (h : Peeks r r' text) (f : α → β) : Peeks (r.map f) (r'.map f) text := by
  intro value next more hread
  obtain ⟨⟨value', rest⟩, hr, heq⟩ := Option.map_eq_some_iff.1 hread
  cases heq
  obtain ⟨front, htext, hfront⟩ := h value' next more hr
  refine ⟨front, htext, fun more' => ?_⟩
  rw [Reads.map, hfront more', Option.map_some]

theorem Closes.map (h : Closes r r' text) (f : α → β) : Closes (r.map f) (r'.map f) text := by
  intro value next more hread
  obtain ⟨⟨value', rest⟩, hr, heq⟩ := Option.map_eq_some_iff.1 hread
  cases heq
  obtain ⟨front, hne, htext, hfront⟩ := h value' next more hr
  refine ⟨front, hne, htext, fun u => ?_⟩
  rw [Reads.map, hfront u, Option.map_some]

/-- After a peek and one more, only the last character is known and not read. -/
theorem Peeks.andThen (h : Peeks r r' text) {next next' : α → Reads β}
    (hnext : ∀ value mid, r text = some (value, mid) → Peeks (next value) (next' value) mid) :
    Peeks (r.andThen next) (r'.andThen next') text := by
  intro value d more hread
  obtain ⟨⟨first, mid⟩, hr, hmid⟩ := Option.bind_eq_some_iff.1 hread
  obtain ⟨back, rfl, hback⟩ := hnext first mid hr value d more hmid
  cases back with
  | nil =>
      obtain ⟨front, htext, hfront⟩ := h first d more hr
      refine ⟨front, htext, fun more' => ?_⟩
      rw [Reads.andThen, hfront more']
      exact hback more'
  | cons e back =>
      obtain ⟨front, htext, hfront⟩ := h first e (back ++ d :: more) hr
      refine ⟨front ++ e :: back, by rw [htext, List.append_assoc]; rfl, fun more' => ?_⟩
      rw [Reads.andThen, List.append_assoc, List.cons_append, hfront (back ++ d :: more')]
      exact hback more'

/-- The character that the first one peeked at is one that the second one has read. -/
theorem Peeks.close (h : Peeks r r' text) {next next' : α → Reads β}
    (hnext : ∀ value mid, r text = some (value, mid) → Closes (next value) (next' value) mid) :
    Closes (r.andThen next) (r'.andThen next') text := by
  intro value d more hread
  obtain ⟨⟨first, mid⟩, hr, hmid⟩ := Option.bind_eq_some_iff.1 hread
  obtain ⟨back, hne, rfl, hback⟩ := hnext first mid hr value d more hmid
  cases back with
  | nil => exact absurd rfl hne
  | cons e back =>
      obtain ⟨front, htext, hfront⟩ := h first e (back ++ d :: more) hr
      refine ⟨front ++ e :: back, by simp, by rw [htext, List.append_assoc]; rfl, fun u => ?_⟩
      rw [Reads.andThen, List.append_assoc, List.cons_append, hfront (back ++ u)]
      exact hback u

/-! ### By the first character -/

theorem Peeks.cons {s s' : Reads α} {c : Char} (h : Peeks s s' text)
    (hr : r (c :: text) = s text) (hr' : ∀ t, r' (c :: t) = s' t) : Peeks r r' (c :: text) := by
  intro value next more hread
  obtain ⟨front, htext, hfront⟩ := h value next more (hr.symm.trans hread)
  refine ⟨c :: front, by rw [htext]; rfl, fun more' => ?_⟩
  rw [List.cons_append, hr']
  exact hfront more'

/-- The reader that goes on after `c` may know where it stands, if this makes no difference. -/
theorem Closes.cons {s : Reads α} {s' : List Char → Reads α} {c : Char}
    (h : ∀ t, Closes s (s' t) text) (hr : r (c :: text) = s text)
    (hr' : ∀ t, r' (c :: t) = s' t t) : Closes r r' (c :: text) := by
  intro value next more hread
  rw [hr] at hread
  obtain ⟨front, _, htext, _⟩ := h [] value next more hread
  refine ⟨c :: front, by simp, by rw [htext]; rfl, fun u => ?_⟩
  obtain ⟨front', _, htext', hfront'⟩ := h (front ++ u) value next more hread
  obtain rfl : front = front' := List.append_cancel_right (htext.symm.trans htext')
  rw [List.cons_append, hr']
  exact hfront' u

/-- It is enough to know a reader on the texts that begin with the same character. -/
theorem Peeks.congr {s s' : Reads α} (h : Peeks s s' text) (hr : r text = s text)
    (hr' : ∀ t, t.head? = text.head? → r' t = s' t) : Peeks r r' text := by
  intro value next more hread
  obtain ⟨front, rfl, hfront⟩ := h value next more (hr.symm.trans hread)
  refine ⟨front, rfl, fun more' => ?_⟩
  rw [hr']
  · exact hfront more'
  · cases front <;> rfl

/-- A reader that stays in front of `c`. -/
theorem Peeks.stay {value : α} {c : Char} (h : r (c :: text) = some (value, c :: text))
    (h' : ∀ t, r' (c :: t) = some (value, c :: t)) : Peeks r r' (c :: text) := by
  intro value' next more hread
  rw [h] at hread
  cases hread
  exact ⟨[], rfl, h'⟩

/-- A reader that takes `c` and is done. -/
theorem Closes.single {value : α} {c : Char} (h : r (c :: text) = some (value, text))
    (h' : ∀ t, r' (c :: t) = some (value, t)) : Closes r r' (c :: text) := by
  intro value' next more hread
  rw [h] at hread
  cases hread
  exact ⟨[c], by simp, rfl, h'⟩

/-- A reader that fails. -/
theorem Closes.fail (h : r text = none) : Closes r r' text := by
  intro value next more hread
  rw [h] at hread
  cases hread

/-- At the end of a text nothing is left over. -/
theorem Closes.nil {value : α} (h : r [] = some (value, [])) : Closes r r' [] := by
  intro value' next more hread
  rw [h] at hread
  cases hread

end

/-! ## Characters of a kind -/

/-- The longest run of characters with a property. -/
def span (p : Char → Bool) : Reads (List Char) := fun text =>
  some (text.takeWhile p, text.dropWhile p)

theorem span_peeks (p : Char → Bool) (text : List Char) : Peeks (span p) (span p) text := by
  induction text with
  | nil => exact (Closes.nil rfl).peeks
  | cons c text ih =>
      cases hc : p c with
      | true =>
          have hcons : ∀ t, span p (c :: t) = (span p).map (c :: ·) t := by
            intro t
            simp [span, Reads.map, hc]
          exact (ih.map _).cons (hcons text) hcons
      | false =>
          have hstay : ∀ t, span p (c :: t) = some ([], c :: t) := by
            intro t
            simp [span, hc]
          exact .stay (hstay text) hstay

/-- One character, if there is one. -/
def one : Reads (Option Char) := fun text => some (text.head?, text.drop 1)

theorem one_closes (text : List Char) : Closes one one text := by
  cases text with
  | nil => exact .nil rfl
  | cons c text => exact .single rfl fun _ => rfl

/-- A backslash after which a character with the property stands is dropped, and that character is
read instead. -/
def pair (p : Char → Bool) (c : Char) : Reads Char
  | [] => some (c, [])
  | d :: rest => if c = '\\' ∧ p d then some (d, rest) else some (c, d :: rest)

theorem pair_peeks (p : Char → Bool) (c : Char) (text : List Char) :
    Peeks (pair p c) (pair p c) text := by
  cases text with
  | nil => exact (Closes.nil rfl).peeks
  | cons d rest =>
      by_cases h : c = '\\' ∧ p d
      · have hsingle : ∀ t, pair p c (d :: t) = some (d, t) := fun t => if_pos h
        exact (Closes.single (hsingle rest) hsingle).peeks
      · have hstay : ∀ t, pair p c (d :: t) = some (c, d :: t) := fun t => if_neg h
        exact .stay (hstay rest) hstay

theorem length_le_of_pair {p : Char → Bool} {c d : Char} {text rest : List Char}
    (h : pair p c text = some (d, rest)) : rest.length ≤ text.length := by
  cases text with
  | nil =>
      cases h
      exact Nat.le_refl _
  | cons e text =>
      rw [pair] at h
      split at h
      · cases h
        exact Nat.le_succ _
      · cases h
        exact Nat.le_refl _

/-! ## Layout -/

def comment : Reads Unit := fun text => some ((), skipComment text)

theorem comment_cons {c : Char} (hc : c ≠ '\n') (text : List Char) :
    comment (c :: text) =
      (pair (fun d => d == '\n' || d == '\\') c).andThen (fun _ => comment) text := by
  cases text with
  | nil => simp [comment, Reads.andThen, pair, skipComment]
  | cons d text =>
      by_cases hpair : c = '\\' ∧ (d = '\n' ∨ d = '\\')
      · obtain ⟨rfl, rfl | rfl⟩ := hpair <;> rfl
      · have hskip : skipComment (c :: d :: text) = skipComment (d :: text) := by
          rw [skipComment]
          · exact hc
          · rintro rest rfl ⟨⟩
            exact hpair ⟨rfl, .inl rfl⟩
          · rintro rest rfl ⟨⟩
            exact hpair ⟨rfl, .inr rfl⟩
        simp [comment, Reads.andThen, pair, hskip, hpair]

theorem comment_closes (text : List Char) : Closes comment comment text := by
  match text with
  | [] => exact .nil rfl
  | c :: text =>
      by_cases hc : c = '\n'
      · subst hc
        exact .single rfl fun _ => rfl
      · refine .cons (fun _ => (pair_peeks _ c text).close ?_) (comment_cons hc text)
          (comment_cons hc)
        intro d rest hpair
        have := length_le_of_pair hpair
        exact comment_closes rest
termination_by text.length
decreasing_by
  simp only [List.length_cons]
  omega

def layout : Reads Unit := fun text => some ((), skipLayout text)

/-- What follows the blanks in front of a command: a comment and more layout, or the command. -/
def afterBlank : Reads Unit
  | '#' :: rest => comment.andThen (fun _ => layout) rest
  | text => some ((), text)

theorem layout_eq (text : List Char) :
    layout text = (span isBlank).andThen (fun _ => afterBlank) text := by
  unfold layout
  rw [skipLayout]
  split
  · rename_i rest h
    show _ = afterBlank (skipBlank text)
    rw [h]
    rfl
  · rename_i h
    show _ = afterBlank (skipBlank text)
    rw [afterBlank]
    exact h

theorem layout_peeks (text : List Char) : Peeks layout layout text := by
  rw [funext layout_eq]
  refine (span_peeks isBlank text).andThen ?_
  intro blanks rest hblank
  have hle : rest.length ≤ text.length := by
    cases hblank
    exact (List.dropWhile_suffix isBlank).length_le
  match rest with
  | [] => exact (Closes.nil rfl).peeks
  | c :: rest =>
      by_cases hc : c = '#'
      · subst hc
        let more : Reads Unit := comment.andThen fun _ => layout
        have hmore : Peeks more more rest := by
          refine (comment_closes rest).peeks.andThen ?_
          intro _ mid hcomment
          have hmid : mid.length ≤ rest.length := by
            cases hcomment
            exact (skipComment_suffix rest).length_le
          exact layout_peeks mid
        exact hmore.cons rfl fun _ => rfl
      · have hstay : ∀ t, afterBlank (c :: t) = some ((), c :: t) := by
          intro t
          rw [afterBlank]
          rintro rest ⟨⟩
          exact hc rfl
        exact .stay (hstay rest) hstay
termination_by text.length
decreasing_by
  simp only [List.length_cons] at *
  omega

/-! ## Words in braces, escapes and variables -/

def braced : Reads (List Char) := fun text =>
  (readBraced text).toOption.map fun r => (r.value, r.rest)

theorem braced_open (text : List Char) :
    braced ('{' :: text) = braced.andThen (fun inner => braced.map fun outer =>
      '{' :: (inner ++ ['}']) ++ outer) text := by
  simp only [braced, Reads.andThen, Reads.map]
  rw [readBraced, if_neg (by decide), if_pos rfl]
  cases readBraced text with
  | error unclosed => rfl
  | ok inner =>
      simp only [Except.toOption, Option.map_some, Option.bind_some]
      cases readBraced inner.rest with
      | error unclosed => rfl
      | ok outer => rfl

theorem braceUnit_eq_pair (c : Char) (text : List Char) :
    some (braceUnit c text) = pair isBraceProtected c text := by
  cases text with
  | nil => rfl
  | cons d rest =>
      rw [braceUnit, pair]
      split <;> rfl

theorem braced_cons {c : Char} (hclose : c ≠ '}') (hopen : c ≠ '{') (text : List Char) :
    braced (c :: text) =
      (pair isBraceProtected c).andThen (fun d => braced.map (d :: ·)) text := by
  simp only [braced, Reads.andThen, Reads.map]
  rw [readBraced, if_neg hclose, if_neg hopen, ← braceUnit_eq_pair, Option.bind_some]
  cases readBraced (braceUnit c text).2 with
  | error unclosed => rfl
  | ok more => rfl

theorem length_le_of_braced {value text rest : List Char} (h : braced text = some (value, rest)) :
    rest.length ≤ text.length := by
  obtain ⟨r, _, heq⟩ := Option.map_eq_some_iff.1 h
  cases heq
  exact r.within.length_le

theorem braced_closes (text : List Char) : Closes braced braced text := by
  match text with
  | [] => exact .fail (by rw [braced, readBraced]; rfl)
  | c :: text =>
      by_cases hclose : c = '}'
      · subst hclose
        have hsingle : ∀ t, braced ('}' :: t) = some ([], t) := by
          intro t
          rw [braced, readBraced, if_pos rfl]
          rfl
        exact .single (hsingle text) hsingle
      by_cases hopen : c = '{'
      · subst hopen
        refine .cons (fun _ => (braced_closes text).peeks.close ?_) (braced_open text) braced_open
        intro inner rest hinner
        have := length_le_of_braced hinner
        exact (braced_closes rest).map _
      · refine .cons (fun _ => (pair_peeks _ c text).close ?_) (braced_cons hclose hopen text)
          (braced_cons hclose hopen)
        intro d rest hpair
        have := length_le_of_pair hpair
        exact (braced_closes rest).map _
termination_by text.length
decreasing_by
  all_goals
    simp only [List.length_cons]
    omega

def escape : Reads (List Char) := fun text =>
  (readEscape text).toOption.map fun r => (r.value, r.rest)

theorem escape_closes (text : List Char) : Closes escape escape text := by
  cases text with
  | nil => exact .nil rfl
  | cons c text =>
      cases hform : EscapeForm.ofChar? c with
      | some form =>
          refine .fail ?_
          rw [escape, readEscape, hform]
          rfl
      | none =>
          have hsingle : ∀ t, escape (c :: t) = some ([escapeValue c], t) := by
            intro t
            rw [escape, readEscape, hform]
            rfl
          exact .single (hsingle text) hsingle

/-- A variable by its name. -/
def var : Reads String := fun text =>
  some ((VarRef.read text).name, (VarRef.read text).rest)

/-- The rest of a name in braces. -/
def bracedName : Reads String :=
  (span (· != '}')).andThen fun name => one.map fun _ => String.ofList name

/-- What follows the name proper: an index, or nothing that belongs to it. -/
def afterName (base : List Char) : Reads String
  | '(' :: rest =>
    ((span isIndexChar).andThen fun index => one.map fun stop =>
      String.ofList (base ++ '(' :: (index ++ if stop = some ')' then [')'] else []))) rest
  | text => some (String.ofList base, text)

theorem var_braced (text : List Char) : var ('{' :: text) = bracedName text := by
  simp only [var, VarRef.read, VarRef.readBraced, VarRef.name, List.append_nil]
  rfl

theorem var_plain {text : List Char} (h : text.head? ≠ some '{') :
    var text = (span isNameChar).andThen afterName text := by
  have hread : VarRef.read text = VarRef.readPlain text := by
    rw [VarRef.read]
    rintro rest rfl
    exact h rfl
  rw [var, hread, VarRef.readPlain]
  show _ = afterName (text.takeWhile isNameChar) (text.dropWhile isNameChar)
  split
  · rename_i rest heq
    exact Eq.symm (congrArg (afterName (text.takeWhile isNameChar)) heq)
  · rename_i hne
    rw [afterName]
    · simp [VarRef.name]
    · exact hne

theorem bracedName_closes (text : List Char) : Closes bracedName bracedName text :=
  (span_peeks _ text).close fun _ mid _ => (one_closes mid).map _

theorem afterName_peeks (base text : List Char) :
    Peeks (afterName base) (afterName base) text := by
  cases text with
  | nil => exact (Closes.nil rfl).peeks
  | cons c text =>
      by_cases hc : c = '('
      · subst hc
        let index : Reads String := (span isIndexChar).andThen fun index => one.map fun stop =>
          String.ofList (base ++ '(' :: (index ++ if stop = some ')' then [')'] else []))
        have hindex : Closes index index text :=
          (span_peeks _ text).close fun _ mid _ => (one_closes mid).map _
        exact hindex.peeks.cons rfl fun _ => rfl
      · have hstay : ∀ t, afterName base (c :: t) = some (String.ofList base, c :: t) := by
          intro t
          rw [afterName]
          rintro rest ⟨⟩
          exact hc rfl
        exact .stay (hstay text) hstay

theorem var_peeks (text : List Char) : Peeks var var text := by
  by_cases hbrace : text.head? = some '{'
  · obtain ⟨rest, rfl⟩ := List.head?_eq_some_iff.1 hbrace
    exact (bracedName_closes rest).peeks.cons (var_braced rest) var_braced
  · have hplain := (span_peeks isNameChar text).andThen fun base mid _ => afterName_peeks base mid
    refine hplain.congr (var_plain hbrace) ?_
    intro t ht
    exact var_plain (ht ▸ hbrace)

end Reads

/-! ## Words and commands -/

namespace Parse

variable {text whole : List Char}

/-- What was read and what is left, if the text could be read. -/
def read? : Parse α text → Option (α × List Char)
  | .ok r => some (r.value, r.rest)
  | .error _ => none

@[simp]
theorem read?_widen (p : Parse α text) (h : text <:+ whole) : (p.widen h).read? = p.read? := by
  cases p <;> rfl

section

variable {p : Parse α text} {r : Reads α} {start : List Char} (hp : p.read? = r start)

include hp

theorem read?_after (front : List Piece) (f : α → β) :
    (p.after front f).read? = r.map f start := by
  rw [Reads.map, ← hp]
  cases p <;> rfl

theorem read?_andThen {next : Parsed α text → Parse β whole} {next' : α → Reads β}
    (h : ∀ read, (next read).read? = next' read.value read.rest) :
    (p.andThen next).read? = r.andThen next' start := by
  rw [Reads.andThen, ← hp]
  cases p with
  | error m => rfl
  | ok read => exact h read

end

theorem suffix_of_read? {p : Parse α text} {value : α} {rest : List Char}
    (h : p.read? = some (value, rest)) : rest <:+ text := by
  cases p with
  | error m => cases h
  | ok r =>
      cases h
      exact r.within

theorem length_le_of_read? {p : Parse α text} {value : α} {rest : List Char}
    (h : p.read? = some (value, rest)) : rest.length ≤ text.length :=
  (suffix_of_read? h).length_le

end Parse

namespace Reads

def words (size : Nat) (embedded : Bool) : Reads (List Word) := fun text =>
  (parseWords size embedded text).read?

def bare (size : Nat) (embedded : Bool) : Reads Word := fun text =>
  (parseBare size embedded text).read?

def quoted (size : Nat) (opening : List Char) : Reads Word := fun text =>
  (parseQuoted size opening text).read?

def unit (size : Nat) (c : Char) : Reads Piece := fun text =>
  (parseUnit size c text).read?

section

variable {size : Nat} {embedded : Bool} {c : Char}

theorem words_end (h : c = ';' ∨ c = '\n' ∨ (embedded = true ∧ c = ']')) (text : List Char) :
    words size embedded (c :: text) = some ([], text) := by
  rw [words, parseWords, if_pos h]
  rfl

section

variable (hend : ¬ (c = ';' ∨ c = '\n' ∨ (embedded = true ∧ c = ']')))

include hend

theorem words_blank (hblank : isBlank c) (text : List Char) :
    words size embedded (c :: text) = words size embedded text := by
  rw [words, parseWords, if_neg hend, if_pos hblank]
  exact Parse.read?_widen _ _

variable (hblank : ¬ isBlank c)

include hblank

theorem words_quoted (hquote : c = '"') (text : List Char) :
    words size embedded (c :: text) =
      (quoted size (c :: text)).andThen
        (fun word => (words size embedded).map (word :: ·)) text := by
  rw [words, parseWords, if_neg hend, if_neg hblank, if_pos hquote]
  refine Parse.read?_andThen rfl fun word => ?_
  rw [Parse.read?_widen]
  exact Parse.read?_after rfl _ _

theorem words_braced (hquote : c ≠ '"') (hbrace : c = '{') (text : List Char) :
    words size embedded (c :: text) =
      braced.andThen
        (fun word => (words size embedded).map (word.map Piece.char :: ·)) text := by
  rw [words, parseWords, if_neg hend, if_neg hblank, if_neg hquote, if_pos hbrace]
  simp only [braced, Reads.andThen, Reads.map]
  cases readBraced text with
  | error unclosed => rfl
  | ok word =>
      dsimp only
      rw [Parse.read?_widen]
      exact Parse.read?_after rfl _ _

theorem words_bare (hquote : c ≠ '"') (hbrace : c ≠ '{') (text : List Char) :
    words size embedded (c :: text) =
      (unit size c).andThen (fun first =>
        ((bare size embedded).map (first :: ·)).andThen
          fun word => (words size embedded).map (word :: ·)) text := by
  rw [words, parseWords, if_neg hend, if_neg hblank, if_neg hquote, if_neg hbrace]
  refine Parse.read?_andThen rfl fun first => ?_
  refine Parse.read?_andThen (Parse.read?_after rfl _ _) fun word => ?_
  rw [Parse.read?_widen]
  exact Parse.read?_after rfl _ _

end

theorem bare_end (h : isBlank c ∨ c = ';' ∨ (embedded = true ∧ c = ']')) (text : List Char) :
    bare size embedded (c :: text) = some ([], c :: text) := by
  rw [bare, parseBare, if_pos h]
  rfl

theorem bare_cons (h : ¬ (isBlank c ∨ c = ';' ∨ (embedded = true ∧ c = ']'))) (text : List Char) :
    bare size embedded (c :: text) =
      (unit size c).andThen (fun first => (bare size embedded).map (first :: ·)) text := by
  rw [bare, parseBare, if_neg h]
  refine Parse.read?_andThen rfl fun first => ?_
  rw [Parse.read?_widen]
  exact Parse.read?_after rfl _ _

theorem quoted_cons {opening : List Char} (h : c ≠ '"') (text : List Char) :
    quoted size opening (c :: text) =
      (unit size c).andThen (fun first => (quoted size opening).map (first :: ·)) text := by
  rw [quoted, parseQuoted, if_neg h]
  refine Parse.read?_andThen rfl fun first => ?_
  rw [Parse.read?_widen]
  exact Parse.read?_after rfl _ _

theorem unit_escape (h : c = '\\') (text : List Char) :
    unit size c text = escape.map .escaped text := by
  rw [unit, parseUnit, if_pos h]
  simp only [escape, Reads.map]
  cases readEscape text <;> rfl

theorem unit_var (hescape : c ≠ '\\') (h : c = '$') (text : List Char) :
    unit size c text = var.map .read text := by
  rw [unit, parseUnit, if_neg hescape, if_pos h]
  rfl

theorem unit_command (hescape : c ≠ '\\') (hvar : c ≠ '$') (h : c = '[') (text : List Char) :
    unit size c text =
      layout.andThen (fun _ => (words size true).map .command) text := by
  rw [unit, parseUnit, if_neg hescape, if_neg hvar, if_pos h]
  exact Parse.read?_after (Parse.read?_widen _ _) _ _

theorem unit_char (hescape : c ≠ '\\') (hvar : c ≠ '$') (h : c ≠ '[') (text : List Char) :
    unit size c text = some (.char c, text) := by
  rw [unit, parseUnit, if_neg hescape, if_neg hvar, if_neg h]
  rfl

end

-- The induction is on the length of the text; as in the parsers, each reader comes before those
-- that it calls on the same text.
mutual

theorem words_closes (size size' : Nat) (embedded : Bool) (text : List Char) :
    Closes (words size embedded) (words size' embedded) text := by
  match text with
  | [] => exact .nil (by rw [words, parseWords]; rfl)
  | c :: text =>
      by_cases hend : c = ';' ∨ c = '\n' ∨ (embedded = true ∧ c = ']')
      · exact .single (words_end hend text) (words_end hend)
      by_cases hblank : isBlank c
      · exact .cons (fun _ => words_closes size size' embedded text) (words_blank hend hblank text)
          (words_blank hend hblank)
      by_cases hquote : c = '"'
      · refine .cons (fun t => (quoted_peeks size size' (c :: text) (c :: t) text).close ?_)
          (words_quoted hend hblank hquote text) (words_quoted hend hblank hquote)
        intro word rest hword
        have := Parse.length_le_of_read? hword
        exact (words_closes size size' embedded rest).map _
      by_cases hbrace : c = '{'
      · refine .cons (fun _ => (braced_closes text).peeks.close ?_)
          (words_braced hend hblank hquote hbrace text) (words_braced hend hblank hquote hbrace)
        intro word rest hword
        have := length_le_of_braced hword
        exact (words_closes size size' embedded rest).map _
      · refine .cons (fun _ => (unit_peeks size size' c text).close ?_)
          (words_bare hend hblank hquote hbrace text) (words_bare hend hblank hquote hbrace)
        intro first mid hfirst
        have hmid := Parse.length_le_of_read? hfirst
        refine ((bare_peeks size size' embedded mid).map _).close ?_
        intro word rest hword
        have hrest : rest.length ≤ mid.length := by
          obtain ⟨read, hread, heq⟩ := Option.map_eq_some_iff.1 hword
          cases heq
          exact Parse.length_le_of_read? hread
        exact (words_closes size size' embedded rest).map _
termination_by 4 * text.length + 2
decreasing_by
  all_goals
    simp only [List.length_cons]
    omega

theorem bare_peeks (size size' : Nat) (embedded : Bool) (text : List Char) :
    Peeks (bare size embedded) (bare size' embedded) text := by
  match text with
  | [] => exact (Closes.nil (by rw [bare, parseBare]; rfl)).peeks
  | c :: text =>
      by_cases hend : isBlank c ∨ c = ';' ∨ (embedded = true ∧ c = ']')
      · exact .stay (bare_end hend text) (bare_end hend)
      · refine .cons ((unit_peeks size size' c text).andThen ?_) (bare_cons hend text)
          (bare_cons hend)
        intro first rest hfirst
        have := Parse.length_le_of_read? hfirst
        exact (bare_peeks size size' embedded rest).map _
termination_by 4 * text.length + 1
decreasing_by
  all_goals
    simp only [List.length_cons]
    omega

theorem quoted_peeks (size size' : Nat) (opening opening' text : List Char) :
    Peeks (quoted size opening) (quoted size' opening') text := by
  match text with
  | [] => exact (Closes.fail (by rw [quoted, parseQuoted]; rfl)).peeks
  | c :: text =>
      by_cases hquote : c = '"'
      · have hsingle : ∀ size opening t, quoted size opening (c :: t) = some ([], t) := by
          intro size opening t
          rw [quoted, parseQuoted, if_pos hquote]
          rfl
        exact (Closes.single (hsingle size opening text) (hsingle size' opening')).peeks
      · refine .cons ((unit_peeks size size' c text).andThen ?_) (quoted_cons hquote text)
          (quoted_cons hquote)
        intro first rest hfirst
        have := Parse.length_le_of_read? hfirst
        exact (quoted_peeks size size' opening opening' rest).map _
termination_by 4 * text.length + 1
decreasing_by
  all_goals
    simp only [List.length_cons]
    omega

theorem unit_peeks (size size' : Nat) (c : Char) (text : List Char) :
    Peeks (unit size c) (unit size' c) text := by
  by_cases hescape : c = '\\'
  · rw [funext (unit_escape hescape), funext (unit_escape hescape)]
    exact (escape_closes text).peeks.map _
  by_cases hvar : c = '$'
  · rw [funext (unit_var hescape hvar), funext (unit_var hescape hvar)]
    exact (var_peeks text).map _
  by_cases hcommand : c = '['
  · rw [funext (unit_command hescape hvar hcommand), funext (unit_command hescape hvar hcommand)]
    -- the bracket that closes the command is read, so nothing after it is known
    refine ((layout_peeks text).close ?_).peeks
    intro _ rest hlayout
    have hrest : rest.length ≤ text.length := by
      cases hlayout
      exact (skipLayout_suffix text).length_le
    exact (words_closes size size' true rest).map _
  · have hchar : ∀ size t, unit size c t = some (.char c, t) :=
      fun size => unit_char hescape hvar hcommand
    cases text with
    | nil => exact (Closes.nil (hchar size [])).peeks
    | cons d text => exact .stay (hchar size _) fun _ => hchar size' _
termination_by 4 * text.length + 3
decreasing_by
  omega

end

end Reads

/-- **A command that ends before its text does is closed.** What was read of it gives the same words
in front of any other text. -/
theorem parseCommand_closes (size size' : Nat) (embedded : Bool) {text rest : List Char}
    {words : List Word} (h : (parseCommand size embedded text).read? = some (words, rest))
    (hrest : rest ≠ []) :
    ∃ front, front ≠ [] ∧ text = front ++ rest ∧
      ∀ u, (parseCommand size' embedded (front ++ u)).read? = some (words, u) := by
  have heq : ∀ size t, (parseCommand size embedded t).read? =
      Reads.layout.andThen (fun _ => Reads.words size embedded) t :=
    fun size t => Parse.read?_widen _ _
  have hcloses := (Reads.layout_peeks text).close fun _ mid _ =>
    Reads.words_closes size size' embedded mid
  obtain ⟨next, more, rfl⟩ := List.exists_cons_of_ne_nil hrest
  obtain ⟨front, hne, htext, hfront⟩ := hcloses words next more ((heq size text).symm.trans h)
  exact ⟨front, hne, htext, fun u => (heq size' _).trans (hfront u)⟩

end EmbeddedTcl
