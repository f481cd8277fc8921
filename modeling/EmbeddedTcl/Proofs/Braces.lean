import EmbeddedTcl.Cursor

/-!
# Counting braces

Braced words are read by recursion, one call for each brace that opens. The same can be said without
any recursion: cut the text into tokens, a protected character with its backslash being one of them,
and count the braces that open and those that close. The word ends where the count first comes back
to zero, and if it never does, the fault is at the last brace that is still open at the end.
-/

namespace EmbeddedTcl

/-! ## Tokens -/

/-- A character that a backslash protects, with that backslash, or any other character. -/
inductive BraceToken where
  | guarded (c : Char)
  | plain (c : Char)
  deriving DecidableEq

namespace BraceToken

def text : BraceToken → List Char
  | guarded c => ['\\', c]
  | plain c => [c]

/-- What a word holds in place of the token. -/
def value : BraceToken → Char
  | guarded c => c
  | plain c => c

/-- What the token adds to the number of open braces. -/
def step : BraceToken → Int
  | guarded _ => 0
  | plain c => if c = '{' then 1 else if c = '}' then -1 else 0

end BraceToken

open BraceToken

def braceTokens : List Char → List BraceToken
  | [] => []
  | [c] => [plain c]
  | c :: d :: rest =>
    if c = '\\' ∧ isBraceProtected d then guarded d :: braceTokens rest
    else plain c :: braceTokens (d :: rest)

/-- The text that tokens stand for. -/
def tokenText (tokens : List BraceToken) : List Char :=
  tokens.flatMap BraceToken.text

/-- How many more braces have been opened than closed. -/
def braceLevel : List BraceToken → Int
  | [] => 0
  | token :: more => token.step + braceLevel more

theorem tokenText_append (front back : List BraceToken) :
    tokenText (front ++ back) = tokenText front ++ tokenText back :=
  List.flatMap_append

/-- Tokens leave nothing out. -/
theorem tokenText_braceTokens (text : List Char) : tokenText (braceTokens text) = text := by
  fun_induction braceTokens text with
  | case1 => rfl
  | case2 c => rfl
  | case3 c d rest h ih =>
      obtain ⟨rfl, _⟩ := h
      exact congrArg (['\\', d] ++ ·) ih
  | case4 c d rest h ih => exact congrArg (c :: ·) ih

theorem braceTokens_plain {c : Char} (hc : c ≠ '\\') (rest : List Char) :
    braceTokens (c :: rest) = plain c :: braceTokens rest := by
  cases rest with
  | nil => rfl
  | cons d rest => rw [braceTokens, if_neg fun h => hc h.1]

/-- A token that is no brace is what the reader takes for one unit. -/
theorem braceTokens_unit {c : Char} (hclose : c ≠ '}') (hopen : c ≠ '{') (rest : List Char) :
    ∃ token : BraceToken, token.step = 0 ∧ token.value = (braceUnit c rest).1 ∧
      braceTokens (c :: rest) = token :: braceTokens (braceUnit c rest).2 := by
  have hplain : (plain c).step = 0 := by
    rw [step, if_neg hopen, if_neg hclose]
  cases rest with
  | nil => exact ⟨plain c, hplain, rfl, rfl⟩
  | cons d rest =>
      rw [braceTokens, braceUnit]
      split
      · exact ⟨guarded d, rfl, rfl, rfl⟩
      · exact ⟨plain c, hplain, rfl, rfl⟩

/-! ## Levels -/

theorem step_open : (plain '{').step = 1 := rfl

theorem step_close : (plain '}').step = -1 := rfl

theorem braceLevel_nil : braceLevel [] = 0 := rfl

theorem braceLevel_cons (token : BraceToken) (more : List BraceToken) :
    braceLevel (token :: more) = token.step + braceLevel more := rfl

theorem braceLevel_append (front back : List BraceToken) :
    braceLevel (front ++ back) = braceLevel front + braceLevel back := by
  induction front with
  | nil => exact (Int.zero_add _).symm
  | cons token more ih => rw [List.cons_append, braceLevel_cons, ih, braceLevel_cons, Int.add_assoc]

/-- Nothing is closed that was not opened before. -/
def Rising (tokens : List BraceToken) : Prop :=
  ∀ n, 0 ≤ braceLevel (tokens.take n)

theorem Rising.nil : Rising [] := by
  intro n
  rw [List.take_nil]
  exact Int.le_refl 0

theorem Rising.cons {token : BraceToken} {more : List BraceToken} (hstep : 0 ≤ token.step)
    (h : Rising more) : Rising (token :: more) := by
  intro n
  cases n with
  | zero => exact Int.le_refl 0
  | succ n =>
      have := h n
      rw [List.take_succ_cons, braceLevel_cons]
      omega

theorem Rising.append {front back : List BraceToken} (h : Rising front) (h' : Rising back) :
    Rising (front ++ back) := by
  intro n
  have hfront := h n
  have hback := h' (n - front.length)
  rw [List.take_append, braceLevel_append]
  omega

/-- All that was opened was closed again, and nothing else. -/
structure Nested (tokens : List BraceToken) : Prop where
  rising : Rising tokens
  level : braceLevel tokens = 0

namespace Nested

variable {inner more : List BraceToken}

theorem nil : Nested [] :=
  ⟨.nil, rfl⟩

theorem unit {token : BraceToken} (hstep : token.step = 0) (h : Nested more) :
    Nested (token :: more) where
  rising := h.rising.cons (Int.le_of_eq hstep.symm)
  level := by rw [braceLevel_cons, hstep, h.level, Int.zero_add]

/-- A pair of braces around what is nested is nested, whatever nested text comes after it. -/
theorem pair (h : Nested inner) (h' : Nested more) :
    Nested (plain '{' :: (inner ++ plain '}' :: more)) where
  rising := by
    intro n
    cases n with
    | zero => exact Int.le_refl 0
    | succ n =>
        have hinner := h.rising n
        rw [List.take_succ_cons, braceLevel_cons, List.take_append, braceLevel_append, step_open]
        cases hk : n - inner.length with
        | zero =>
            rw [List.take_zero, braceLevel_nil]
            omega
        | succ k =>
            have hmore := h'.rising k
            have hwhole : inner.take n = inner := List.take_of_length_le (by omega)
            rw [List.take_succ_cons, braceLevel_cons, step_close, hwhole, h.level]
            omega
  level := by
    rw [braceLevel_cons, braceLevel_append, braceLevel_cons, h.level, h'.level, step_open,
      step_close]
    rfl

end Nested

/-! ## What follows an opening brace -/

/-- A word that is read is nested text up to the brace that closes it. -/
theorem readBraced_ok (text : List Char) {r : Read text} (h : readBraced text = .ok r) :
    ∃ inner, Nested inner ∧ braceTokens text = inner ++ plain '}' :: braceTokens r.rest ∧
      r.value = inner.map value := by
  fun_induction readBraced text with
  | case1 => cases h
  | case2 rest =>
      cases h
      exact ⟨[], .nil, braceTokens_plain (by decide) rest, rfl⟩
  | case3 => cases h
  | case4 => cases h
  | case5 rest inner hinner outer houter _ ihinner ihouter =>
      cases h
      obtain ⟨front, hfront, htokens, hvalue⟩ := ihinner hinner
      obtain ⟨back, hback, htokens', hvalue'⟩ := ihouter houter
      refine ⟨plain '{' :: (front ++ plain '}' :: back), hfront.pair hback, ?_, ?_⟩
      · rw [braceTokens_plain (by decide), htokens, htokens']
        simp [Read.after]
      · simp [Read.after, hvalue, hvalue', value]
  | case6 => cases h
  | case7 c rest hclose hopen more hmore ih =>
      cases h
      obtain ⟨inner, hinner, htokens, hvalue⟩ := ih hmore
      obtain ⟨token, hstep, htoken, hunit⟩ := braceTokens_unit hclose hopen rest
      refine ⟨token :: inner, hinner.unit hstep, ?_, ?_⟩
      · rw [hunit, htokens]
        rfl
      · simp [Read.after, hvalue, htoken]

/-- What a failure tells of a text: that all braces in it are in pairs, or the text from the last
one on that is not closed. -/
def Unclosed (text : List Char) : Option (List Char) → Prop
  | none => Nested (braceTokens text)
  | some place =>
    ∃ front inner, braceTokens text = front ++ plain '{' :: inner ∧ Rising front ∧ Nested inner ∧
      place = '{' :: tokenText inner

/-- Tokens in front that open nothing for good. -/
theorem Unclosed.after {text rest : List Char} (tokens : List BraceToken)
    {unclosed : Option (List Char)} (htokens : braceTokens text = tokens ++ braceTokens rest)
    (hnested : ∀ more, Nested more → Nested (tokens ++ more)) (h : Unclosed rest unclosed) :
    Unclosed text unclosed := by
  cases unclosed with
  | none =>
      rw [Unclosed, htokens]
      exact hnested _ h
  | some place =>
      obtain ⟨front, inner, heq, hfront, hinner, hplace⟩ := h
      refine ⟨tokens ++ front, inner, ?_, ?_, hinner, hplace⟩
      · rw [htokens, heq, List.append_assoc]
      · have htokens' := (hnested [] .nil).rising
        rw [List.append_nil] at htokens'
        exact htokens'.append hfront

/-- A text that is read to its end without a closing brace. -/
theorem readBraced_error (text : List Char) {unclosed : Option (List Char)}
    (h : readBraced text = .error unclosed) : Unclosed text unclosed := by
  fun_induction readBraced text generalizing unclosed with
  | case1 =>
      cases h
      exact Nested.nil
  | case2 => cases h
  | case3 rest unclosed' hinner _ ih =>
      cases h
      have htokens : braceTokens ('{' :: rest) = plain '{' :: braceTokens rest :=
        braceTokens_plain (by decide) rest
      have hunclosed := ih hinner
      cases unclosed' with
      | none =>
          refine ⟨[], braceTokens rest, htokens, .nil, hunclosed, ?_⟩
          rw [tokenText_braceTokens]
          rfl
      | some place =>
          -- the brace that is told lies deeper than this one
          obtain ⟨front, inner, heq, hfront, hinner', hplace⟩ := hunclosed
          refine ⟨plain '{' :: front, inner, ?_, hfront.cons (by decide), hinner', hplace⟩
          rw [htokens, heq]
          rfl
  | case4 rest inner hinner unclosed' houter _ _ ih =>
      cases h
      obtain ⟨front, hfront, htokens, _⟩ := readBraced_ok rest hinner
      refine Unclosed.after (plain '{' :: (front ++ [plain '}'])) ?_ ?_ (ih houter)
      · rw [braceTokens_plain (by decide), htokens]
        simp
      · intro more hmore
        have hpair := hfront.pair hmore
        simpa using hpair
  | case5 => cases h
  | case6 c rest hclose hopen unclosed' hmore ih =>
      cases h
      obtain ⟨token, hstep, _, hunit⟩ := braceTokens_unit hclose hopen rest
      exact .after [token] hunit (fun _ hmore => hmore.unit hstep) (ih hmore)
  | case7 => cases h

/-! ## The count -/

/-- The count is back at zero after `n` tokens, and was not so before. -/
structure ReturnsAfter (tokens : List BraceToken) (n : Nat) : Prop where
  pos : 0 < n
  le : n ≤ tokens.length
  zero : braceLevel (tokens.take n) = 0
  first : ∀ m < n, 0 < m → braceLevel (tokens.take m) ≠ 0

/-- The `k`-th token is a brace that is still open at the end: from there on the count stays above
what it was. -/
structure StaysOpen (tokens : List BraceToken) (k : Nat) : Prop where
  brace : tokens[k]? = some (plain '{')
  above : ∀ n ≤ tokens.length, k < n → braceLevel (tokens.take k) < braceLevel (tokens.take n)

instance (tokens : List BraceToken) (n : Nat) : Decidable (ReturnsAfter tokens n) :=
  decidable_of_iff
    (0 < n ∧ n ≤ tokens.length ∧ braceLevel (tokens.take n) = 0 ∧
      ∀ m < n, 0 < m → braceLevel (tokens.take m) ≠ 0)
    ⟨fun ⟨pos, le, zero, first⟩ => ⟨pos, le, zero, first⟩,
      fun h => ⟨h.pos, h.le, h.zero, h.first⟩⟩

instance (tokens : List BraceToken) (k : Nat) : Decidable (StaysOpen tokens k) :=
  decidable_of_iff
    (tokens[k]? = some (plain '{') ∧
      ∀ n ≤ tokens.length, k < n → braceLevel (tokens.take k) < braceLevel (tokens.take n))
    ⟨fun ⟨brace, above⟩ => ⟨brace, above⟩, fun h => ⟨h.brace, h.above⟩⟩

/-- Where the text stands after `n` tokens that start at position `p`. -/
def positionAfter (tokens : List BraceToken) (p n : Nat) : Nat :=
  p + (tokenText (tokens.take n)).length

section

variable {inner more front : List BraceToken}

/-- Inside a pair of braces the count is above zero. -/
theorem level_inside (h : Rising inner) (n : Nat) :
    0 < braceLevel ((plain '{' :: inner).take (n + 1)) := by
  have := h n
  rw [List.take_succ_cons, braceLevel_cons, step_open]
  omega

theorem take_pair (inner more : List BraceToken) :
    (plain '{' :: (inner ++ plain '}' :: more)).take (inner.length + 2) =
      plain '{' :: (inner ++ [plain '}']) := by
  simp [List.take_append, List.take_of_length_le]

theorem returnsAfter_of_nested {tokens : List BraceToken} (h : Nested inner)
    (htokens : tokens = plain '{' :: (inner ++ plain '}' :: more)) :
    ReturnsAfter tokens (inner.length + 2) := by
  subst htokens
  refine ⟨Nat.succ_pos _, by simp, ?_, ?_⟩
  · rw [take_pair]
    exact (h.pair .nil).level
  · intro m hm hpos
    obtain ⟨k, rfl⟩ : ∃ k, m = k + 1 := ⟨m - 1, by omega⟩
    have hk : k ≤ inner.length := by omega
    have htake : (plain '{' :: (inner ++ plain '}' :: more)).take (k + 1) =
        (plain '{' :: inner).take (k + 1) := by
      rw [List.take_succ_cons, List.take_succ_cons, List.take_append_of_le_length hk]
    rw [htake]
    exact Int.ne_of_gt (level_inside h.rising k)

theorem ReturnsAfter.unique {tokens : List BraceToken} {n m : Nat} (h : ReturnsAfter tokens n)
    (h' : ReturnsAfter tokens m) : n = m := by
  rcases Nat.lt_trichotomy n m with hlt | heq | hgt
  · exact absurd h.zero (h'.first n hlt h.pos)
  · exact heq
  · exact absurd h'.zero (h.first m hgt h'.pos)

theorem take_past (n : Nat) :
    (front ++ plain '{' :: inner).take (front.length + 1 + n) =
      front ++ plain '{' :: inner.take n := by
  rw [Nat.add_assoc, List.take_length_add_append, Nat.add_comm 1 n, List.take_succ_cons]

/-- Of nested text no brace stays open, so the one in front of it is the last. -/
theorem staysOpen_iff (h : Nested inner) (j : Nat) (hj : front.length ≤ j) :
    StaysOpen (front ++ plain '{' :: inner) j ↔ j = front.length := by
  have hlevel : ∀ n, braceLevel ((front ++ plain '{' :: inner).take (front.length + 1 + n)) =
      braceLevel front + 1 + braceLevel (inner.take n) := by
    intro n
    rw [take_past, braceLevel_append, braceLevel_cons, step_open, Int.add_assoc]
  constructor
  · intro hopen
    refine Nat.le_antisymm (Nat.le_of_not_lt fun hgt => ?_) hj
    obtain ⟨n, rfl⟩ : ∃ n, j = front.length + 1 + n := ⟨j - front.length - 1, by omega⟩
    have hlive : front.length + 1 + n < (front ++ plain '{' :: inner).length :=
      (List.getElem?_eq_some_iff.1 hopen.brace).1
    have hlast : (front ++ plain '{' :: inner).length = front.length + 1 + inner.length := by
      simp
      omega
    have habove := hopen.above _ (Nat.le_refl _) hlive
    have := h.rising n
    rw [hlast, hlevel, hlevel, List.take_length, h.level] at habove
    omega
  · rintro rfl
    constructor
    · simp
    · intro n _ hn
      obtain ⟨k, rfl⟩ : ∃ k, n = front.length + 1 + k := ⟨n - front.length - 1, by omega⟩
      have := h.rising k
      rw [hlevel, List.take_left]
      omega

end

/-! ## Words at a position -/

theorem positionAfter_eq {text : List Char} {p : Nat} (hp : p ≤ text.length)
    {front back : List BraceToken} (h : braceTokens (text.drop p) = front ++ back) :
    (positionAfter (braceTokens (text.drop p)) p front.length : Int) =
      text.length - (tokenText back).length := by
  have hlength : (tokenText front).length + (tokenText back).length = text.length - p := by
    rw [← List.length_append, ← tokenText_append, ← h, tokenText_braceTokens, List.length_drop]
  rw [positionAfter, h, List.take_left]
  omega

/-- What a cursor at an opening brace reads, by what its tokens are. -/
inductive CountedRead (text : List Char) (p : Nat) : Except Fault (List Char) × Cursor → Prop where
  | closed {inner more : List BraceToken} (nested : Nested inner)
      (tokens : braceTokens (text.drop p) = plain '{' :: (inner ++ plain '}' :: more)) :
      CountedRead text p (.ok (inner.map value),
        ⟨text, positionAfter (braceTokens (text.drop p)) p (inner.length + 2)⟩)
  | unclosed {front inner : List BraceToken} (nested : Nested inner)
      (tokens : braceTokens (text.drop p) = front ++ plain '{' :: inner)
      (rising : ∃ rest, braceTokens (text.drop p) = plain '{' :: rest ∧ Rising rest) :
      CountedRead text p
        (.error (.script (.unclosedBrace
          (some (positionAfter (braceTokens (text.drop p)) p front.length)))),
          ⟨text, text.length⟩)

theorem readBraced_counted {text : List Char} {p : Nat} (h : text[p]? = some '{') :
    CountedRead text p (Cursor.readBraced ⟨text, p⟩) := by
  obtain ⟨hp, hchar⟩ := List.getElem?_eq_some_iff.1 h
  have hdrop : text.drop p = '{' :: text.drop (p + 1) := by
    rw [List.drop_eq_getElem_cons hp, hchar]
  have htokens : braceTokens (text.drop p) = plain '{' :: braceTokens (text.drop (p + 1)) := by
    rw [hdrop]
    exact braceTokens_plain (by decide) _
  have hview : (⟨text, p⟩ : Cursor).view? ((p : Int) + 1) = some (text.drop (p + 1)) := by
    rw [Cursor.view?, if_pos (by omega)]
    rfl
  simp only [Cursor.readBraced, hview]
  cases hread : readBraced (text.drop (p + 1)) with
  | ok r =>
      obtain ⟨inner, hinner, hclosed, hvalue⟩ := readBraced_ok _ hread
      rw [hclosed] at htokens
      have hsplit : braceTokens (text.drop p) =
          (plain '{' :: (inner ++ [plain '}'])) ++ braceTokens r.rest := by
        rw [htokens]
        simp
      have hposition := positionAfter_eq (Nat.le_of_lt hp) hsplit
      rw [tokenText_braceTokens] at hposition
      have hcounted : CountedRead text p _ := .closed hinner htokens
      simp only [List.length_cons, List.length_append, List.length_nil] at hposition
      simp only [hvalue, Cursor.withRest, Cursor.size]
      rw [← hposition]
      exact hcounted
  | error unclosed =>
      have hunclosed := readBraced_error _ hread
      cases unclosed with
      | none =>
          have hsplit : braceTokens (text.drop p) =
              [] ++ plain '{' :: braceTokens (text.drop (p + 1)) := htokens
          have hcounted : CountedRead text p _ :=
            .unclosed hunclosed hsplit ⟨_, htokens, hunclosed.rising⟩
          exact hcounted
      | some place =>
          obtain ⟨front, inner, heq, hfront, hinner, rfl⟩ := hunclosed
          have hrising : Rising (braceTokens (text.drop (p + 1))) := by
            rw [heq]
            exact hfront.append (hinner.rising.cons (by decide))
          have hsplit : braceTokens (text.drop p) = (plain '{' :: front) ++ plain '{' :: inner := by
            rw [htokens, heq]
            rfl
          have hposition := positionAfter_eq (Nat.le_of_lt hp) hsplit
          have hcounted : CountedRead text p _ :=
            .unclosed hinner hsplit ⟨_, htokens, hrising⟩
          rw [hposition] at hcounted
          exact hcounted

namespace CountedRead

variable {text : List Char} {p : Nat} {outcome : Except Fault (List Char) × Cursor}

/-- The count is above zero as long as what follows the opening brace rises. -/
theorem level_ne_zero {tokens rest : List BraceToken} (htokens : tokens = plain '{' :: rest)
    (hrest : Rising rest) {n : Nat} (hn : 0 < n) : braceLevel (tokens.take n) ≠ 0 := by
  obtain ⟨k, rfl⟩ : ∃ k, n = k + 1 := ⟨n - 1, by omega⟩
  rw [htokens]
  exact Int.ne_of_gt (level_inside hrest k)

theorem ok_iff (h : CountedRead text p outcome) :
    (∃ word, outcome.1 = .ok word) ↔ ∃ n, 0 < n ∧ n ≤ (braceTokens (text.drop p)).length ∧
      braceLevel ((braceTokens (text.drop p)).take n) = 0 := by
  cases h with
  | closed nested tokens =>
      have hreturns := returnsAfter_of_nested nested tokens
      exact ⟨fun _ => ⟨_, hreturns.pos, hreturns.le, hreturns.zero⟩, fun _ => ⟨_, rfl⟩⟩
  | unclosed nested tokens rising =>
      obtain ⟨rest, htokens, hrest⟩ := rising
      constructor
      · rintro ⟨word, ⟨⟩⟩
      · rintro ⟨n, hn, _, hzero⟩
        exact absurd hzero (level_ne_zero htokens hrest hn)

theorem of_returnsAfter (h : CountedRead text p outcome) {n : Nat}
    (hn : ReturnsAfter (braceTokens (text.drop p)) n) :
    (braceTokens (text.drop p))[n - 1]? = some (plain '}') ∧
      outcome = (.ok ((((braceTokens (text.drop p)).take (n - 1)).drop 1).map value),
        ⟨text, positionAfter (braceTokens (text.drop p)) p n⟩) := by
  cases h with
  | @closed inner more nested tokens =>
      have hreturns := returnsAfter_of_nested nested tokens
      obtain rfl := hreturns.unique hn
      have hclosing : (braceTokens (text.drop p))[inner.length + 1]? = some (plain '}') := by
        rw [tokens, List.getElem?_cons_succ, List.getElem?_append_right (Nat.le_refl _),
          Nat.sub_self]
        rfl
      have hinner : ((braceTokens (text.drop p)).take (inner.length + 1)).drop 1 = inner := by
        rw [tokens, List.take_succ_cons, List.take_left]
        rfl
      refine ⟨hclosing, ?_⟩
      rw [show inner.length + 2 - 1 = inner.length + 1 from rfl, hinner]
  | unclosed nested tokens rising =>
      obtain ⟨rest, htokens, hrest⟩ := rising
      exact absurd hn.zero (level_ne_zero htokens hrest hn.pos)

theorem of_never (h : CountedRead text p outcome)
    (hnever : ∀ n ≤ (braceTokens (text.drop p)).length, 0 < n →
      braceLevel ((braceTokens (text.drop p)).take n) ≠ 0) :
    ∃ k, StaysOpen (braceTokens (text.drop p)) k ∧
      (∀ j, k < j → ¬ StaysOpen (braceTokens (text.drop p)) j) ∧
      outcome = (.error (.script (.unclosedBrace
        (some (positionAfter (braceTokens (text.drop p)) p k)))), ⟨text, text.length⟩) := by
  cases h with
  | closed nested tokens =>
      have hreturns := returnsAfter_of_nested nested tokens
      exact absurd hreturns.zero (hnever _ hreturns.le hreturns.pos)
  | @unclosed front inner nested tokens rising =>
      have hopen : ∀ j, front.length ≤ j →
          (StaysOpen (braceTokens (text.drop p)) j ↔ j = front.length) := by
        rw [tokens]
        exact staysOpen_iff nested
      refine ⟨front.length, (hopen _ (Nat.le_refl _)).2 rfl, ?_, rfl⟩
      intro j hj hstays
      exact Nat.ne_of_gt hj ((hopen j (Nat.le_of_lt hj)).1 hstays)

end CountedRead

/-! ## Text without backslashes -/

/-- The braces of a text are in pairs. -/
structure BracesBalance (text : List Char) : Prop where
  ahead : ∀ n, (text.take n).count '}' ≤ (text.take n).count '{'
  total : text.count '}' = text.count '{'

theorem braceTokens_of_no_backslash {inner : List Char} (h : '\\' ∉ inner) (back : List Char) :
    braceTokens (inner ++ back) = inner.map plain ++ braceTokens back := by
  induction inner with
  | nil => rfl
  | cons c more ih =>
      obtain ⟨hc, hmore⟩ := not_or.1 (mt List.mem_cons.2 h)
      rw [List.cons_append, braceTokens_plain (Ne.symm hc), ih hmore]
      rfl

theorem braceLevel_plain (text : List Char) :
    braceLevel (text.map plain) = text.count '{' - text.count '}' := by
  induction text with
  | nil => rfl
  | cons c more ih =>
      rw [List.map_cons, braceLevel_cons, ih, List.count_cons, List.count_cons]
      by_cases hopen : c = '{'
      · subst hopen
        simp [step]
        omega
      · by_cases hclose : c = '}'
        · subst hclose
          simp [step]
          omega
        · simp [step, hopen, hclose]

theorem BracesBalance.nested {text : List Char} (h : BracesBalance text) :
    Nested (text.map plain) where
  rising := by
    intro n
    have := h.ahead n
    rw [← List.map_take, braceLevel_plain]
    omega
  level := by
    have := h.total
    rw [braceLevel_plain]
    omega

theorem tokenText_plain (text : List Char) : tokenText (text.map plain) = text := by
  induction text with
  | nil => rfl
  | cons c more ih => exact congrArg (c :: ·) ih

/-- **A braced word ends where the count of braces does.** Count one up for a brace that opens and
one down for a brace that closes, in the tokens from the opening brace on. A word is read if and
only if the count comes back to zero. It ends just after the first token at which it does, which is
a closing brace, and holds what is between the two with each token reduced to its value. If the
count never comes back, the fault is at the last brace that stays open, and the cursor at the end.
So text without backslashes in which braces are in pairs is read as it stands. -/
theorem braced_word_ends_where_count_does {text : List Char} {p : Nat} (h : text[p]? = some '{') :
    let cursor : Cursor := ⟨text, p⟩
    let tokens := braceTokens (text.drop p)
    tokenText tokens = text.drop p ∧
    ((∃ word, cursor.readBraced.1 = .ok word) ↔
      ∃ n, 0 < n ∧ n ≤ tokens.length ∧ braceLevel (tokens.take n) = 0) ∧
    (∀ n, ReturnsAfter tokens n → tokens[n - 1]? = some (plain '}') ∧
      cursor.readBraced =
        (.ok (((tokens.take (n - 1)).drop 1).map value), ⟨text, positionAfter tokens p n⟩)) ∧
    ((∀ n ≤ tokens.length, 0 < n → braceLevel (tokens.take n) ≠ 0) →
      ∃ k, StaysOpen tokens k ∧ (∀ j, k < j → ¬ StaysOpen tokens j) ∧
        cursor.readBraced =
          (.error (.script (.unclosedBrace (some (positionAfter tokens p k)))),
            ⟨text, text.length⟩)) ∧
    ∀ inner back, text.drop p = '{' :: (inner ++ '}' :: back) → '\\' ∉ inner →
      BracesBalance inner →
        cursor.readBraced = (.ok inner, ⟨text, (p + inner.length + 2 : Nat)⟩) := by
  intro cursor tokens
  have hcounted := readBraced_counted h
  refine ⟨tokenText_braceTokens _, ?_, ?_, ?_, ?_⟩
  · exact hcounted.ok_iff
  · exact fun n => hcounted.of_returnsAfter
  · exact hcounted.of_never
  · intro inner back hdrop hbackslash hbalance
    have htokens : tokens = plain '{' :: (inner.map plain ++ plain '}' :: braceTokens back) := by
      show braceTokens (text.drop p) = _
      rw [hdrop, braceTokens_plain (by decide), braceTokens_of_no_backslash hbackslash,
        braceTokens_plain (by decide)]
    have hreturns := returnsAfter_of_nested hbalance.nested htokens
    obtain ⟨_, hread⟩ := hcounted.of_returnsAfter hreturns
    have hposition : positionAfter tokens p ((inner.map plain).length + 2) =
        p + inner.length + 2 := by
      have htake : plain '{' :: (inner.map plain ++ [plain '}']) =
          ('{' :: (inner ++ ['}'])).map plain := by simp
      rw [positionAfter, htokens, take_pair, htake, tokenText_plain]
      simp
      omega
    have hvalue : ((tokens.take ((inner.map plain).length + 2 - 1)).drop 1).map value = inner := by
      have hmap : (inner.map plain).map value = inner := by
        simp [Function.comp_def, value]
      rw [htokens, show (inner.map plain).length + 2 - 1 = (inner.map plain).length + 1 from rfl,
        List.take_succ_cons, List.take_left]
      exact hmap
    rw [hread, hvalue, hposition]

/-- Two protected characters and an inner pair of braces; and, further on, an inner pair after two
braces that stay open, the second of which is told. -/
theorem braced_word_ends_where_count_does_escaped :
    let text := ['a', '{', 'b', '\\', '}', '{', 'c', '}', '\\', '\\', '}', 'd', '{', 'e', '{', '{',
      'f', '}', '\\']
    text[1]? = some '{' ∧ text[12]? = some '{' ∧
    Cursor.readBraced ⟨text, 1⟩ = (.ok ['b', '}', '{', 'c', '}', '\\'], ⟨text, 11⟩) ∧
    Cursor.readBraced ⟨text, 12⟩ = (.error (.script (.unclosedBrace (some 14))), ⟨text, 19⟩) := by
  intro text
  have h₁ : text[1]? = some '{' := rfl
  have h₂ : text[12]? = some '{' := rfl
  obtain ⟨_, _, hread, _⟩ := braced_word_ends_where_count_does h₁
  obtain ⟨_, _, _, hunclosed, _⟩ := braced_word_ends_where_count_does h₂
  refine ⟨h₁, h₂, (hread 8 (by decide)).2, ?_⟩
  obtain ⟨k, hstays, hlast, hfault⟩ := hunclosed (by decide)
  have htwo : StaysOpen (braceTokens (text.drop 12)) 2 := by decide
  have hle : ∀ j < 7, StaysOpen (braceTokens (text.drop 12)) j → j ≤ 2 := by decide
  obtain ⟨hlive, _⟩ := List.getElem?_eq_some_iff.1 hstays.brace
  obtain rfl : k = 2 :=
    Nat.le_antisymm (hle k hlive hstays) (Nat.le_of_not_lt fun hlt => hlast 2 hlt htwo)
  exact hfault

end EmbeddedTcl
