import EmbeddedTcl.Proofs.PureParse
import EmbeddedTcl.Proofs.Return

/-!
# Spelled words

Any text can be written as a word that is read back as just that text: in braces, in quotes, or
bare, with a backslash in front of the characters that would mean something there. A script put
together from words that are spelled so runs the commands that were meant and nothing else,
whatever the words hold.
-/

namespace EmbeddedTcl

variable {H α β : Type}

/-! ## Spelling -/

inductive Style where
  | braced
  | quoted
  | bare
  deriving DecidableEq

/-- The characters that need a backslash in front of them. -/
def Style.guards : Style → Char → Bool
  | braced, c => c == '{' || c == '}' || c == '\\'
  | quoted, c => c == '\\' || c == '"' || c == '$' || c == '['
  | bare, c =>
    isBlank c || c == ';' || c == '$' || c == '[' || c == ']' || c == '\\' || c == '"' ||
      c == '{' || c == '#'

/-- A text with its guarded characters after backslashes. -/
def Style.guard (style : Style) (text : List Char) : List Char :=
  text.flatMap fun c => if style.guards c then ['\\', c] else [c]

/-- A word with the way to write it. The empty word cannot be written bare. -/
structure Spelled where
  word : String
  style : Style
  fits : style = .bare → word ≠ ""

def Spelled.text (w : Spelled) : List Char :=
  match w.style with
  | .braced => '{' :: (Style.braced.guard w.word.toList ++ ['}'])
  | .quoted => '"' :: (Style.quoted.guard w.word.toList ++ ['"'])
  | .bare => Style.bare.guard w.word.toList

/-- A command of at least one word. -/
structure SpelledCommand where
  name : Spelled
  args : List Spelled

namespace SpelledCommand

def words (c : SpelledCommand) : List String :=
  (c.name :: c.args).map Spelled.word

/-- The words with a space between any two. -/
def text (c : SpelledCommand) : List Char :=
  c.name.text ++ c.args.flatMap fun w => ' ' :: w.text

end SpelledCommand

inductive Separator where
  | newline
  | semicolon

def Separator.char : Separator → Char
  | newline => '\n'
  | semicolon => ';'

/-- Commands in a row. Each but the first comes with the separator in front of it. -/
def spelledScript : List (Separator × SpelledCommand) → List Char
  | [] => []
  | first :: more => first.2.text ++ more.flatMap fun next => next.1.char :: next.2.text

/-! ## Parses that succeed -/

namespace Parse

variable {text whole : List Char}

/-- A parse that finds `value` and leaves `rest`. -/
def Gives (p : Parse α text) (value : α) (rest : List Char) : Prop :=
  ∃ within, p = .ok ⟨value, rest, within⟩

namespace Gives

variable {p : Parse α text} {value : α} {rest : List Char}

theorem widen (h : p.Gives value rest) (within : text <:+ whole) :
    (p.widen within).Gives value rest := by
  obtain ⟨_, rfl⟩ := h
  exact ⟨_, rfl⟩

theorem after (h : p.Gives value rest) (front : List Piece) (f : α → β) :
    (p.after front f).Gives (f value) rest := by
  obtain ⟨_, rfl⟩ := h
  exact ⟨_, rfl⟩

theorem andThen {next : Parsed α text → Parse β whole} {value' : β} {rest' : List Char}
    (h : p.Gives value rest)
    (h' : ∀ within, (next ⟨value, rest, within⟩).Gives value' rest') :
    (p.andThen next).Gives value' rest' := by
  obtain ⟨within, rfl⟩ := h
  exact h' within

end Gives

end Parse

open Parse

/-! ## Guarded characters -/

theorem toNat_of_isBlank {c : Char} (h : isBlank c = true) : c.toNat ≤ 0x20 ∨ 0x85 ≤ c.toNat := by
  simp only [isBlank, blankRanges, List.any_cons, List.any_nil, Bool.or_eq_true, Bool.and_eq_true,
    decide_eq_true_eq, Bool.false_eq_true, or_false] at h
  omega

/-- No blank is a letter or a digit, which a backslash may give another meaning. -/
theorem escape_of_isBlank {c : Char} (h : isBlank c = true) :
    EscapeForm.ofChar? c = none ∧ escapeValue c = c := by
  have hc := toNat_of_isBlank h
  have hdigit : ¬ ('0' ≤ c ∧ c ≤ '7') := by
    rintro ⟨h₀, h₇⟩
    have : 48 ≤ c.toNat := h₀
    have : c.toNat ≤ 55 := h₇
    omega
  have hne : ∀ d : Char, ¬ (d.toNat ≤ 0x20 ∨ 0x85 ≤ d.toNat) → c ≠ d := by
    rintro d hd rfl
    exact hd hc
  constructor
  · rw [EscapeForm.ofChar?, if_neg hdigit, if_neg (hne 'x' (by decide)),
      if_neg (hne 'u' (by decide))]
  · unfold escapeValue
    split
    case h_8 => rfl
    all_goals exact absurd rfl (hne _ (by decide))

theorem escape_of_guards {style : Style} {c : Char} (h : style.guards c = true) :
    EscapeForm.ofChar? c = none ∧ escapeValue c = c := by
  by_cases hblank : isBlank c = true
  · exact escape_of_isBlank hblank
  · have hmem : c ∈ [';', '$', '[', ']', '\\', '"', '{', '}', '#'] := by
      cases style <;> simp_all only [Style.guards, List.mem_cons] <;> grind
    simp only [List.mem_cons, List.not_mem_nil, or_false] at hmem
    rcases hmem with rfl | rfl | rfl | rfl | rfl | rfl | rfl | rfl | rfl
    all_goals exact ⟨rfl, rfl⟩

namespace Style

/-- What a guarded text is read as. -/
def pieces (style : Style) (text : List Char) : Word :=
  text.map fun c => if style.guards c then .escaped [c] else .char c

theorem evalWord_pieces (d : Dispatcher H) (style : Style) (text : List Char) (st : State H) :
    evalWord d (style.pieces text) st = (.ok text, st) := by
  induction text with
  | nil => rfl
  | cons c more ih =>
      rw [pieces] at ih
      rw [pieces, List.map_cons, evalWord]
      split <;> simp [Piece.eval, ih]

theorem guard_cons_of_guards {style : Style} {c : Char} (h : style.guards c = true)
    (text tail : List Char) :
    style.guard (c :: text) ++ tail = '\\' :: c :: (style.guard text ++ tail) := by
  simp [guard, h]

theorem guard_cons_of_not_guards {style : Style} {c : Char} (h : style.guards c = false)
    (text tail : List Char) :
    style.guard (c :: text) ++ tail = c :: (style.guard text ++ tail) := by
  simp [guard, h]

end Style

theorem parseUnit_guarded (size : Nat) {style : Style} {c : Char} (h : style.guards c = true)
    (rest : List Char) : (parseUnit size '\\' (c :: rest)).Gives (.escaped [c]) rest := by
  obtain ⟨hform, hvalue⟩ := escape_of_guards h
  rw [parseUnit, if_pos rfl, readEscape, hform, hvalue]
  exact ⟨_, rfl⟩

theorem parseUnit_plain (size : Nat) {c : Char} (h : c ≠ '\\' ∧ c ≠ '$' ∧ c ≠ '[')
    (rest : List Char) : (parseUnit size c rest).Gives (.char c) rest := by
  rw [parseUnit, if_neg h.1, if_neg h.2.1, if_neg h.2.2]
  exact ⟨_, rfl⟩

/-! ## Words read back -/

/-- A text that ends a bare word: there is nothing, or a blank, a semicolon or, in an embedded
command, a closing bracket in front. -/
def EndsWord (embedded : Bool) (tail : List Char) : Prop :=
  ∀ c ∈ tail.head?, isBlank c = true ∨ c = ';' ∨ (embedded = true ∧ c = ']')

theorem EndsWord.cons {embedded : Bool} {c : Char} {rest : List Char}
    (h : isBlank c = true ∨ c = ';' ∨ (embedded = true ∧ c = ']')) :
    EndsWord embedded (c :: rest) := by
  rintro d ⟨⟩
  exact h

theorem parseBare_guard (size : Nat) (embedded : Bool) (text : List Char) {tail : List Char}
    (h : EndsWord embedded tail) :
    (parseBare size embedded (Style.bare.guard text ++ tail)).Gives (Style.bare.pieces text)
      tail := by
  induction text with
  | nil =>
      rw [Style.guard, List.flatMap_nil, List.nil_append]
      cases tail with
      | nil =>
          rw [parseBare]
          exact ⟨_, rfl⟩
      | cons c rest =>
          rw [parseBare, if_pos (h c rfl)]
          exact ⟨_, rfl⟩
  | cons c more ih =>
      by_cases hguard : Style.bare.guards c = true
      · have hstop : ¬ (isBlank '\\' = true ∨ '\\' = ';' ∨ (embedded = true ∧ '\\' = ']')) := by
          simp [isBlank, blankRanges]
        rw [Style.guard_cons_of_guards hguard, parseBare, if_neg hstop, Style.pieces,
          List.map_cons, if_pos hguard]
        exact (parseUnit_guarded size hguard _).andThen fun _ => (ih.after _ _).widen _
      · have hplain : isBlank c = false ∧ c ≠ ';' ∧ c ≠ ']' ∧ c ≠ '\\' ∧ c ≠ '$' ∧ c ≠ '[' := by
          grind [Style.guards]
        have hstop : ¬ (isBlank c = true ∨ c = ';' ∨ (embedded = true ∧ c = ']')) := by
          simp [hplain]
        rw [Style.guard_cons_of_not_guards (by simpa using hguard), parseBare, if_neg hstop,
          Style.pieces, List.map_cons, if_neg hguard]
        exact (parseUnit_plain size hplain.2.2.2 _).andThen fun _ => (ih.after _ _).widen _

theorem parseQuoted_guard (size : Nat) (opening text tail : List Char) :
    (parseQuoted size opening (Style.quoted.guard text ++ '"' :: tail)).Gives
      (Style.quoted.pieces text) tail := by
  induction text with
  | nil =>
      rw [Style.guard, List.flatMap_nil, List.nil_append, parseQuoted, if_pos rfl]
      exact ⟨_, rfl⟩
  | cons c more ih =>
      by_cases hguard : Style.quoted.guards c = true
      · rw [Style.guard_cons_of_guards hguard, parseQuoted, if_neg (by decide), Style.pieces,
          List.map_cons, if_pos hguard]
        exact (parseUnit_guarded size hguard _).andThen fun _ => (ih.after _ _).widen _
      · have hplain : c ≠ '"' ∧ c ≠ '\\' ∧ c ≠ '$' ∧ c ≠ '[' := by
          grind [Style.guards]
        rw [Style.guard_cons_of_not_guards (by simpa using hguard), parseQuoted,
          if_neg hplain.1, Style.pieces, List.map_cons, if_neg hguard]
        exact (parseUnit_plain size hplain.2 _).andThen fun _ => (ih.after _ _).widen _

theorem braceUnit_of_ne {c : Char} (h : c ≠ '\\') (rest : List Char) :
    braceUnit c rest = (c, rest) := by
  cases rest with
  | nil => rfl
  | cons d rest => rw [braceUnit, if_neg fun hc => h hc.1]

/-- One unit of braced text and what is read after it. -/
theorem readBraced_unit {c x : Char} {text text' value rest : List Char}
    (hc : c ≠ '}' ∧ c ≠ '{') (hunit : braceUnit c text = (x, text'))
    (h : ∃ within, readBraced text' = .ok ⟨value, rest, within⟩) :
    ∃ within, readBraced (c :: text) = .ok ⟨x :: value, rest, within⟩ := by
  obtain ⟨rfl, rfl⟩ : (braceUnit c text).1 = x ∧ (braceUnit c text).2 = text' := by simp [hunit]
  obtain ⟨within, heq⟩ := h
  rw [readBraced, if_neg hc.1, if_neg hc.2, heq]
  exact ⟨_, rfl⟩

theorem readBraced_guard (text tail : List Char) :
    ∃ within, readBraced (Style.braced.guard text ++ '}' :: tail) = .ok ⟨text, tail, within⟩ := by
  induction text with
  | nil =>
      rw [Style.guard, List.flatMap_nil, List.nil_append, readBraced, if_pos rfl]
      exact ⟨_, rfl⟩
  | cons c more ih =>
      by_cases hguard : Style.braced.guards c = true
      · have hprotected : isBraceProtected c = true := by
          grind [Style.guards, isBraceProtected]
        rw [Style.guard_cons_of_guards hguard]
        exact readBraced_unit (by decide) (if_pos ⟨rfl, hprotected⟩) ih
      · have hplain : c ≠ '}' ∧ c ≠ '{' ∧ c ≠ '\\' := by
          grind [Style.guards]
        rw [Style.guard_cons_of_not_guards (by simpa using hguard)]
        exact readBraced_unit ⟨hplain.1, hplain.2.1⟩ (braceUnit_of_ne hplain.2.2 _) ih

namespace Spelled

/-- What the word is read as. -/
def pieces (w : Spelled) : Word :=
  match w.style with
  | .braced => w.word.toList.map .char
  | .quoted => Style.quoted.pieces w.word.toList
  | .bare => Style.bare.pieces w.word.toList

theorem evalWord_pieces (d : Dispatcher H) (w : Spelled) (st : State H) :
    evalWord d w.pieces st = (.ok w.word.toList, st) := by
  unfold pieces
  split
  · exact evalWord_char d _ st
  · exact Style.evalWord_pieces d _ _ st
  · exact Style.evalWord_pieces d _ _ st

end Spelled

/-! ## Commands read back -/

section

variable (size : Nat) (embedded : Bool) {tail rest : List Char} {words : List Word}

theorem parseWords_braced (word : List Char)
    (hmore : (parseWords size embedded tail).Gives words rest) :
    (parseWords size embedded ('{' :: (Style.braced.guard word ++ '}' :: tail))).Gives
      (word.map .char :: words) rest := by
  obtain ⟨within, heq⟩ := readBraced_guard word tail
  rw [parseWords, if_neg (by simp), if_neg (by decide), if_neg (by decide), if_pos rfl, heq]
  exact (hmore.after _ _).widen _

theorem parseWords_quoted (word : List Char)
    (hmore : (parseWords size embedded tail).Gives words rest) :
    (parseWords size embedded ('"' :: (Style.quoted.guard word ++ '"' :: tail))).Gives
      (Style.quoted.pieces word :: words) rest := by
  rw [parseWords, if_neg (by simp), if_neg (by decide), if_pos rfl]
  exact (parseQuoted_guard size _ word tail).andThen fun _ => (hmore.after _ _).widen _

/-- The first character decides that a word is bare, so there must be one. -/
theorem parseWords_bare (c : Char) (more : List Char) (hends : EndsWord embedded tail)
    (hmore : (parseWords size embedded tail).Gives words rest) :
    (parseWords size embedded (Style.bare.guard (c :: more) ++ tail)).Gives
      (Style.bare.pieces (c :: more) :: words) rest := by
  have hbare := parseBare_guard size embedded more hends
  by_cases hguard : Style.bare.guards c = true
  · rw [Style.guard_cons_of_guards hguard, parseWords, if_neg (by simp), if_neg (by decide),
      if_neg (by decide), if_neg (by decide), Style.pieces, List.map_cons, if_pos hguard]
    exact (parseUnit_guarded size hguard _).andThen fun _ =>
      (hbare.after _ _).andThen fun _ => (hmore.after _ _).widen _
  · have hplain : isBlank c = false ∧ c ≠ ';' ∧ c ≠ ']' ∧ c ≠ '"' ∧ c ≠ '{' ∧ c ≠ '\\' ∧
        c ≠ '$' ∧ c ≠ '[' := by
      grind [Style.guards]
    have hnewline : c ≠ '\n' := by
      rintro rfl
      cases hplain.1
    rw [Style.guard_cons_of_not_guards (by simpa using hguard), parseWords,
      if_neg (by simp [hplain, hnewline]), if_neg (by simp [hplain]), if_neg hplain.2.2.2.1,
      if_neg hplain.2.2.2.2.1, Style.pieces, List.map_cons, if_neg hguard]
    exact (parseUnit_plain size hplain.2.2.2.2.2 _).andThen fun _ =>
      (hbare.after _ _).andThen fun _ => (hmore.after _ _).widen _

theorem parseWords_spelled (w : Spelled) (hends : EndsWord embedded tail)
    (hmore : (parseWords size embedded tail).Gives words rest) :
    (parseWords size embedded (w.text ++ tail)).Gives (w.pieces :: words) rest := by
  obtain ⟨word, style, fits⟩ := w
  cases style with
  | braced =>
      have htext : Spelled.text ⟨word, .braced, fits⟩ ++ tail =
          '{' :: (Style.braced.guard word.toList ++ '}' :: tail) := by simp [Spelled.text]
      rw [htext]
      exact parseWords_braced size embedded word.toList hmore
  | quoted =>
      have htext : Spelled.text ⟨word, .quoted, fits⟩ ++ tail =
          '"' :: (Style.quoted.guard word.toList ++ '"' :: tail) := by simp [Spelled.text]
      rw [htext]
      exact parseWords_quoted size embedded word.toList hmore
  | bare =>
      have hne : word.toList ≠ [] := fun hnil => fits rfl (String.toList_eq_nil_iff.1 hnil)
      obtain ⟨c, more, hword⟩ := List.exists_cons_of_ne_nil hne
      have htext : Spelled.text ⟨word, .bare, fits⟩ = Style.bare.guard (c :: more) :=
        congrArg Style.bare.guard hword
      have hpieces : Spelled.pieces ⟨word, .bare, fits⟩ = Style.bare.pieces (c :: more) :=
        congrArg Style.bare.pieces hword
      rw [htext, hpieces]
      exact parseWords_bare size embedded c more hends hmore

/-- A text that ends a command, with what it leaves. -/
inductive EndsCommand (embedded : Bool) : (tail rest : List Char) → Prop where
  | finished : EndsCommand embedded [] []
  | terminated {c : Char} (rest : List Char)
      (h : c = ';' ∨ c = '\n' ∨ (embedded = true ∧ c = ']')) :
      EndsCommand embedded (c :: rest) rest

variable {embedded} in
theorem EndsCommand.endsWord (h : EndsCommand embedded tail rest) : EndsWord embedded tail := by
  cases h with
  | finished => rintro c ⟨⟩
  | terminated rest h =>
      refine .cons ?_
      rcases h with rfl | rfl | h
      · exact .inr (.inl rfl)
      · exact .inl (by decide)
      · exact .inr (.inr h)

theorem parseWords_end (h : EndsCommand embedded tail rest) :
    (parseWords size embedded tail).Gives [] rest := by
  cases h with
  | finished =>
      rw [parseWords]
      exact ⟨_, rfl⟩
  | terminated rest h =>
      rw [parseWords, if_pos h]
      exact ⟨_, rfl⟩

/-- Words that are all set off by a space in front. -/
theorem parseWords_args (args : List Spelled) (hends : EndsCommand embedded tail rest) :
    (parseWords size embedded ((args.flatMap fun w => ' ' :: w.text) ++ tail)).Gives
        (args.map Spelled.pieces) rest ∧
      EndsWord embedded ((args.flatMap fun w => ' ' :: w.text) ++ tail) := by
  induction args with
  | nil => exact ⟨parseWords_end size embedded hends, hends.endsWord⟩
  | cons w more ih =>
      rw [List.flatMap_cons, List.cons_append, List.cons_append, List.append_assoc]
      constructor
      · rw [parseWords, if_neg (by simp), if_pos (by decide)]
        exact (parseWords_spelled size embedded w ih.2 ih.1).widen _
      · exact .cons (.inl (by decide))

end

theorem skipLayout_of_ne {c : Char} (hblank : isBlank c = false) (hhash : c ≠ '#')
    (rest : List Char) : skipLayout (c :: rest) = c :: rest := by
  have hskip : skipBlank (c :: rest) = c :: rest := by simp [skipBlank, hblank]
  rw [skipLayout]
  split
  · rename_i more heq
    rw [hskip] at heq
    exact absurd (List.cons.inj heq).1 hhash
  · exact hskip

/-- A spelled word starts with no blank and no comment. -/
theorem Spelled.text_eq_cons (w : Spelled) :
    ∃ c rest, w.text = c :: rest ∧ isBlank c = false ∧ c ≠ '#' := by
  obtain ⟨word, style, fits⟩ := w
  cases style with
  | braced => exact ⟨'{', _, rfl, by decide, by decide⟩
  | quoted => exact ⟨'"', _, rfl, by decide, by decide⟩
  | bare =>
      have hne : word.toList ≠ [] := fun hnil => fits rfl (String.toList_eq_nil_iff.1 hnil)
      obtain ⟨c, more, hword⟩ := List.exists_cons_of_ne_nil hne
      have htext : Spelled.text ⟨word, .bare, fits⟩ = Style.bare.guard (c :: more) ++ [] := by
        rw [List.append_nil, ← hword]
        rfl
      by_cases hguard : Style.bare.guards c = true
      · exact ⟨'\\', _, htext.trans (Style.guard_cons_of_guards hguard more []), by decide,
          by decide⟩
      · have hplain : isBlank c = false ∧ c ≠ '#' := by
          grind [Style.guards]
        exact ⟨c, _, htext.trans (Style.guard_cons_of_not_guards (by simpa using hguard) more []),
          hplain.1, hplain.2⟩

namespace SpelledCommand

/-- What the words are read as. -/
def pieces (c : SpelledCommand) : List Word :=
  (c.name :: c.args).map Spelled.pieces

theorem evalWords_pieces (d : Dispatcher H) (c : SpelledCommand) (st : State H) :
    evalWords d c.pieces st = (.ok c.words, st) := by
  rw [pieces, words]
  induction c.name :: c.args with
  | nil => rfl
  | cons w more ih => simp [evalWords, Spelled.evalWord_pieces, ih]

theorem text_eq_cons (c : SpelledCommand) :
    ∃ char rest, c.text = char :: rest ∧ isBlank char = false ∧ char ≠ '#' := by
  obtain ⟨char, rest, htext, hplain⟩ := c.name.text_eq_cons
  exact ⟨char, _, by rw [text, htext, List.cons_append], hplain⟩

theorem parseCommand_text (size : Nat) (embedded : Bool) (c : SpelledCommand)
    {tail rest : List Char} (hends : EndsCommand embedded tail rest) :
    (parseCommand size embedded (c.text ++ tail)).Gives c.pieces rest := by
  obtain ⟨hargs, hname⟩ := parseWords_args size embedded c.args hends
  have hwords := parseWords_spelled size embedded c.name hname hargs
  rw [← List.append_assoc, ← text] at hwords
  have hlayout : skipLayout (c.text ++ tail) = c.text ++ tail := by
    obtain ⟨char, more, htext, hblank, hhash⟩ := c.text_eq_cons
    rw [htext]
    exact skipLayout_of_ne hblank hhash _
  rw [← hlayout] at hwords
  exact hwords.widen _

end SpelledCommand

/-! ## Scripts read back -/

/-- The script that a row of commands is read as. -/
def spelledTree (commands : List (Separator × SpelledCommand)) : Script :=
  commands.foldr (fun command more => .command command.2.pieces more) .stop

theorem parseScript_spelled (size : Nat) (commands : List (Separator × SpelledCommand)) :
    parseScript size (spelledScript commands) = spelledTree commands := by
  induction commands with
  | nil =>
      rw [spelledScript, parseScript]
      rfl
  | cons first more ih =>
      have hends : EndsCommand false (more.flatMap fun next => next.1.char :: next.2.text)
          (spelledScript more) := by
        cases more with
        | nil => exact .finished
        | cons next more =>
            rw [List.flatMap_cons]
            refine .terminated _ ?_
            cases next.1 with
            | newline => exact .inr (.inl rfl)
            | semicolon => exact .inl rfl
      have hparse := first.2.parseCommand_text size false hends
      obtain ⟨c, rest, htext, _⟩ := first.2.text_eq_cons
      rw [spelledScript]
      rw [htext, List.cons_append] at hparse ⊢
      obtain ⟨within, heq⟩ := hparse
      rw [parseScript, heq]
      exact congrArg (Script.command first.2.pieces) ih

/-- Dispatches commands one after the other, up to the first that returns or fails. -/
def Env.dispatchAll (env : Env H) : List (List String) → Completion → State H →
    Outcome H Completion
  | [], last, st => (.ok last, st)
  | words :: more, _, st =>
    Outcome.andThen (env.dispatch words st) fun completion st' =>
      if completion.returning then (.ok completion, st') else env.dispatchAll more completion st'

/-- A command that succeeds leaves no return pending where there was none. -/
theorem Env.dispatch_pendingReturn (env : Env Empty) {words : List String} {st : State Empty}
    (h : st.pendingReturn = false) {completion : Completion} {st' : State Empty}
    (hok : env.dispatch words st = (.ok completion, st')) : st'.pendingReturn = false := by
  rw [Env.dispatch, Env.entry_eq] at hok
  obtain ⟨heq, hclean⟩ := dispatchWith_shown env env.afresh _ words st h
  rw [hok] at heq
  generalize judgeWith env _ words st = r at heq hclean
  rcases r with ⟨failure | value, s⟩
  · cases heq
  · cases heq
    exact hclean

theorem spelledTree_run (env : Env Empty) (commands : List (Separator × SpelledCommand)) :
    ∀ (last : Completion) {st : State Empty}, st.pendingReturn = false →
      (spelledTree commands).run env.dispatch last st =
        env.dispatchAll (commands.map (·.2.words)) last st := by
  induction commands with
  | nil => exact fun _ _ _ => rfl
  | cons first more ih =>
      intro last st h
      have hwords : first.2.words.isEmpty = false := rfl
      rw [spelledTree, List.foldr_cons, Script.run, SpelledCommand.evalWords_pieces,
        Outcome.andThen_ok, hwords, if_neg (by simp), State.clear_pending h, h, List.map_cons,
        Env.dispatchAll]
      cases hdispatch : env.dispatch first.2.words st with
      | mk outcome st' =>
          cases outcome with
          | error fault => rfl
          | ok completion =>
              have hreturning : completion.returningIf false = completion := by
                simp [Completion.returningIf]
              simp only [Outcome.andThen_ok, hreturning]
              split
              · rfl
              · exact ih completion (env.dispatch_pendingReturn h hdispatch)

/-- What a cursor reads where the text in front of it parses and the words can be evaluated. -/
theorem Env.readCommand_of_parse (env : Env H) {embedded : Bool} {text : List Char} {pos : Nat}
    {st st' : State H} {words : List Word} {texts : List String} {rest : List Char}
    (hparse : (parseCommand text.length embedded
      (text.drop (pos + if embedded then 1 else 0))).Gives words rest)
    (heval : evalWords env.dispatch words st = (.ok texts, st')) :
    env.readCommand embedded ⟨text, pos⟩ st =
      ⟨.ok texts, ⟨text, text.length - rest.length⟩, st'⟩ := by
  obtain ⟨within, hparse⟩ := hparse
  have hscan := scanCommand_result (env.entry st) (Cursor.source ⟨text, pos⟩) text.length embedded
    st (text.drop (pos + if embedded then 1 else 0))
    ((Cursor.source_plain ⟨text, pos⟩).suffix (List.drop_suffix _ _))
  rw [hparse, Parse.run, env.evalWords_entry, heval] at hscan
  rw [env.readCommand_natCast]
  generalize scanCommand (env.entry st) (Cursor.source ⟨text, pos⟩) embedded st
    (text.drop (pos + if embedded then 1 else 0)) = scan at hscan ⊢
  cases scan with
  | done value state left _ =>
      cases hscan
      rfl
  | failed fault state left _ => cases hscan

/-- **No injection.** A script that is put together from spelled words does what dispatching the
words themselves does, command by command, up to the first that returns or fails. A spelled command
in brackets is read as its words, from wherever it stands and from every state, and nothing is run
to read it. -/
theorem spelled_script_runs_its_words (env : Env Empty)
    (commands : List (Separator × SpelledCommand)) {st : State Empty}
    (h : st.pendingReturn = false) :
    env.evaluateScript (String.ofList (spelledScript commands)) st =
        env.dispatchAll (commands.map (·.2.words)) {} st ∧
      ∀ (command : SpelledCommand) (front back : List Char) (s : State Empty),
        let text := front ++ '[' :: (command.text ++ ']' :: back)
        let reading := env.readCommand true ⟨text, front.length⟩ s
        reading.outcome = .ok command.words ∧ reading.state = s ∧
          reading.cursor = ⟨text, (front.length + command.text.length + 2 : Nat)⟩ := by
  constructor
  · rw [Env.evaluateScript_run, Script.ofString, String.toList_ofList, parseScript_spelled]
    exact spelledTree_run env commands {} h
  · intro command front back s text reading
    have hdrop : text.drop (front.length + 1) = command.text ++ ']' :: back := by
      simp [text, List.drop_append]
    have hparse := command.parseCommand_text text.length true
      (.terminated back (.inr (.inr ⟨rfl, rfl⟩)))
    rw [← hdrop] at hparse
    have hreading : reading = _ :=
      env.readCommand_of_parse hparse (command.evalWords_pieces env.dispatch s)
    have hlength : (text.length : Int) - back.length =
        (front.length + command.text.length + 2 : Nat) := by
      simp only [text, List.length_append, List.length_cons]
      omega
    rw [hreading, hlength]
    exact ⟨rfl, rfl, rfl⟩

/-- A name that starts like a comment and has a blank in it, and a value with a substitution, a
second command and a backslash at its end. -/
theorem spelled_script_hostile_words :
    let word := fun text style (fits : style = Style.bare → text ≠ "") => Spelled.mk text style fits
    let command : SpelledCommand :=
      ⟨word "set" .bare (by decide), [word "#a b" .bare (by decide),
        word "[return x]; puts $y \\" .quoted (by decide)]⟩
    State.initial.pendingReturn = false ∧
    (Config.bare.env.evaluateScript (String.ofList (spelledScript [(.newline, command)]))
      State.initial).1.toOption = some ⟨"[return x]; puts $y \\", false⟩ ∧
    Config.bare.env.evaluateScript (String.ofList (spelledScript [(.newline, command)]))
        State.initial =
      Config.bare.env.dispatchAll [["set", "#a b", "[return x]; puts $y \\"]] {} State.initial := by
  intro word command
  exact ⟨rfl, by decide +kernel, (spelled_script_runs_its_words Config.bare.env _ rfl).1⟩

end EmbeddedTcl
