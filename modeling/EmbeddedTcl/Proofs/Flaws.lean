import EmbeddedTcl.Proofs.Braces
import EmbeddedTcl.Proofs.WordTree

/-!
# Flaws

What keeps a text from being a command. There are three kinds of flaws, and each is at a place of
the text: a quote or a brace that nothing closes, or a backslash that opens a numeric escape. Where
it is, and what stands complete in front of it, is settled by the text from there on and by nothing
before it; only the position that is told counts from the start of the whole script.
-/

namespace EmbeddedTcl

variable {H α β : Type}

/-- The fault that ended a piece of work early. -/
def Outcome.fault? (o : Outcome H α) : Option Fault :=
  match o with
  | (.ok _, _) => none
  | (.error fault, _) => some fault

theorem Outcome.fault?_eq_some {o : Outcome H α} {fault : Fault} :
    o.fault? = some fault ↔ o.1 = .error fault := by
  obtain ⟨fault' | value, st⟩ := o
  · simp [fault?]
  · simp [fault?]

theorem Outcome.fault?_map (f : α → β) (o : Outcome H α) : (map f o).fault? = o.fault? := by
  obtain ⟨_ | _, _⟩ := o <;> rfl

/-! ## Kinds of flaws -/

inductive Flaw where
  | openQuote
  | openBrace
  | numericEscape (c : Char) (form : EscapeForm)

namespace Flaw

def error : Flaw → Option Int → Error
  | openQuote, position => .unclosedQuote position
  | openBrace, position => .unclosedBrace position
  | numericEscape c form, position => .unsupportedEscape (String.ofList [c]) form.name position

theorem error_syntactic (flaw : Flaw) (position : Option Int) :
    (flaw.error position).isSyntactic = true := by
  cases flaw <;> rfl

/-- How a text begins that has the flaw in front. -/
def Opens : Flaw → List Char → Prop
  | openQuote, text => text.head? = some '"'
  | openBrace, text => text.head? = some '{'
  | numericEscape c form, text => EscapeForm.ofChar? c = some form ∧ ['\\', c] <+: text

end Flaw

/-- A flaw of a text: the text from it on, and the pieces that stand complete in front of it. -/
structure Broken (text : List Char) where
  before : List Piece
  flaw : Flaw
  place : List Char
  within : place <:+ text
  opens : flaw.Opens place

namespace Broken

variable {text whole : List Char}

/-- What is told of the flaw when the text ends a script of `size` characters. -/
def malformed (b : Broken text) (size : Nat) : Malformed :=
  ⟨b.before, b.flaw.error (positionOf size b.place), b.flaw.error_syntactic _⟩

def after (front : List Piece) (b : Broken text) : Broken text :=
  { b with before := front ++ b.before }

def widen (b : Broken text) (h : text <:+ whole) : Broken whole :=
  { b with within := b.within.trans h }

end Broken

/-! ## Parses of any size -/

/-- A parse that finds the same whatever the size of the script, or always fails at the same flaw
of `whole`. -/
def Placed {text : List Char} (whole : List Char) (p : Nat → Parse α text) : Prop :=
  (∃ r, ∀ size, p size = .ok r) ∨ ∃ b : Broken whole, ∀ size, p size = .error (b.malformed size)

namespace Placed

variable {text text' whole whole' : List Char} {p : Nat → Parse α text}

theorem ok (r : Parsed α text) : Placed whole fun _ => .ok r :=
  .inl ⟨r, fun _ => rfl⟩

theorem within (h : Placed whole p) (hwhole : whole <:+ whole') : Placed whole' p := by
  rcases h with h | ⟨b, hb⟩
  · exact .inl h
  · exact .inr ⟨b.widen hwhole, hb⟩

theorem widen (h : Placed whole p) (htext : text <:+ text') :
    Placed whole fun size => (p size).widen htext := by
  rcases h with ⟨r, hr⟩ | ⟨b, hb⟩
  · exact .inl ⟨_, fun size => congrArg (Parse.widen · htext) (hr size)⟩
  · exact .inr ⟨b, fun size => congrArg (Parse.widen · htext) (hb size)⟩

theorem after (h : Placed whole p) (front : List Piece) (f : α → β) :
    Placed whole fun size => (p size).after front f := by
  rcases h with ⟨r, hr⟩ | ⟨b, hb⟩
  · exact .inl ⟨_, fun size => congrArg (Parse.after front f) (hr size)⟩
  · exact .inr ⟨b.after front, fun size => congrArg (Parse.after front f) (hb size)⟩

theorem andThen (h : Placed whole p) {next : Nat → Parsed α text → Parse β text'}
    (hnext : ∀ r, Placed whole fun size => next size r) :
    Placed whole fun size => (p size).andThen (next size) := by
  rcases h with ⟨r, hr⟩ | ⟨b, hb⟩
  · have heq : (fun size => (p size).andThen (next size)) = fun size => next size r :=
      funext fun size => congrArg (Parse.andThen · (next size)) (hr size)
    rw [heq]
    exact hnext r
  · exact .inr ⟨b, fun size => congrArg (Parse.andThen · (next size)) (hb size)⟩

end Placed

/-- The brace that is told to be open is there. -/
theorem unclosed_place {rest : List Char} {unclosed : Option (List Char)}
    (h : readBraced rest = .error unclosed) :
    unclosed.getD ('{' :: rest) <:+ '{' :: rest ∧
      (unclosed.getD ('{' :: rest)).head? = some '{' := by
  cases unclosed with
  | none => exact ⟨List.suffix_rfl, rfl⟩
  | some place =>
      obtain ⟨front, inner, htokens, _, _, rfl⟩ := readBraced_error rest h
      have hrest : rest = tokenText front ++ '{' :: tokenText inner := by
        rw [← tokenText_braceTokens rest, htokens, tokenText_append]
        rfl
      have hplace : '{' :: tokenText inner <:+ rest := ⟨_, hrest.symm⟩
      exact ⟨hplace.trans (List.suffix_cons _ _), rfl⟩

theorem readEscape_error {rest : List Char} {c : Char} {form : EscapeForm}
    (h : readEscape rest = .error (c, form)) :
    EscapeForm.ofChar? c = some form ∧ ['\\', c] <+: '\\' :: rest := by
  cases rest with
  | nil => cases h
  | cons d more =>
      rw [readEscape] at h
      split at h
      · rename_i hform
        cases h
        exact ⟨hform, more, rfl⟩
      · cases h

mutual

theorem parseWords_placed (embedded : Bool) (text : List Char) :
    Placed text fun size => parseWords size embedded text := by
  cases text with
  | nil =>
      simp only [parseWords]
      exact .ok _
  | cons c rest =>
      have hrest : rest <:+ c :: rest := List.suffix_cons c rest
      -- what follows a word
      have following : ∀ rest', rest' <:+ rest →
          Placed (c :: rest) fun size => parseWords size embedded rest' :=
        fun rest' h => (parseWords_placed embedded rest').within (h.trans hrest)
      simp only [parseWords]
      split
      · exact .ok _
      split
      · exact (following rest List.suffix_rfl).widen _
      split
      · rename_i hquote
        refine (parseQuoted_placed (c :: rest) (congrArg some hquote) rest hrest).andThen ?_
        exact fun word => ((following word.rest word.within).after _ _).widen _
      split
      · rename_i hbrace
        subst hbrace
        split
        · rename_i unclosed hread
          obtain ⟨hplace, hhead⟩ := unclosed_place hread
          exact .inr ⟨⟨[], .openBrace, _, hplace, hhead⟩, fun _ => rfl⟩
        · rename_i word _
          exact ((following word.rest word.within).after _ _).widen _
      · refine (parseUnit_placed c rest).andThen fun first => ?_
        have hfirst : first.rest <:+ c :: rest := first.within.trans hrest
        have hbare := (parseBare_placed embedded first.rest).within hfirst
        refine (hbare.after _ _).andThen fun word => ?_
        exact ((following word.rest (word.within.trans first.within)).after _ _).widen _
termination_by 4 * text.length + 2
decreasing_by
  · have := h.length_le
    simp only [List.length_cons]
    omega
  · simp only [List.length_cons]
    omega
  · have := first.within.length_le
    simp only [List.length_cons]
    omega
  · simp only [List.length_cons]
    omega

theorem parseBare_placed (embedded : Bool) (text : List Char) :
    Placed text fun size => parseBare size embedded text := by
  cases text with
  | nil =>
      simp only [parseBare]
      exact .ok _
  | cons c rest =>
      simp only [parseBare]
      split
      · exact .ok _
      · refine (parseUnit_placed c rest).andThen fun first => ?_
        have hfirst : first.rest <:+ c :: rest := first.within.trans (List.suffix_cons c rest)
        exact (((parseBare_placed embedded first.rest).within hfirst).after _ _).widen _
termination_by 4 * text.length + 1
decreasing_by
  · simp only [List.length_cons]
    omega
  · have := first.within.length_le
    simp only [List.length_cons]
    omega

theorem parseQuoted_placed (opening : List Char) (hopening : opening.head? = some '"')
    (text : List Char) :
    text <:+ opening → Placed opening fun size => parseQuoted size opening text := by
  cases text with
  | nil =>
      intro _
      simp only [parseQuoted]
      exact .inr ⟨⟨[], .openQuote, opening, List.suffix_rfl, hopening⟩, fun _ => rfl⟩
  | cons c rest =>
      intro h
      simp only [parseQuoted]
      split
      · exact .ok _
      · refine ((parseUnit_placed c rest).within h).andThen fun first => ?_
        have hfirst := first.within.trans ((List.suffix_cons c rest).trans h)
        exact ((parseQuoted_placed opening hopening first.rest hfirst).after _ _).widen _
termination_by 4 * text.length + 1
decreasing_by
  · simp only [List.length_cons]
    omega
  · have := first.within.length_le
    simp only [List.length_cons]
    omega

theorem parseUnit_placed (c : Char) (rest : List Char) :
    Placed (c :: rest) fun size => parseUnit size c rest := by
  simp only [parseUnit]
  split
  · rename_i hescape
    subst hescape
    split
    · rename_i char form hread
      have hopens : (Flaw.numericEscape char form).Opens ('\\' :: rest) := readEscape_error hread
      exact .inr ⟨⟨[], _, _, List.suffix_rfl, hopens⟩, fun _ => rfl⟩
    · exact .ok _
  split
  · exact .ok _
  split
  · have hlayout := (skipLayout_suffix rest).trans (List.suffix_cons c rest)
    exact (((parseWords_placed true (skipLayout rest)).within hlayout).widen _).after _ _
  · exact .ok _
termination_by 4 * rest.length + 3
decreasing_by
  have := (skipLayout_suffix rest).length_le
  omega

end

/-! ## Whole scripts -/

/-- A row of commands, with the flaw that ends it if there is one. -/
def Script.of {text : List Char} (size : Nat) :
    List (List Word) → Option (Broken text) → Script
  | [], none => .stop
  | [], some b => .broken (b.malformed size)
  | words :: more, b => .command words (Script.of size more b)

theorem Script.of_widen {text whole : List Char} (h : text <:+ whole) (size : Nat)
    (commands : List (List Word)) (b : Option (Broken text)) :
    Script.of size commands (b.map (·.widen h)) = Script.of size commands b := by
  induction commands with
  | nil => cases b <;> rfl
  | cons words more ih => exact congrArg (Script.command words) ih

/-- **A script is read the same whatever stands in front of it.** Its commands are settled by its
text, and so is its flaw. -/
theorem parseScript_placed (text : List Char) :
    ∃ (commands : List (List Word)) (b : Option (Broken text)),
      ∀ size, parseScript size text = .of size commands b := by
  cases text with
  | nil => exact ⟨[], none, fun size => by rw [parseScript]; rfl⟩
  | cons c rest =>
      have hcommand : Placed (c :: rest) fun size => parseCommand size false (c :: rest) :=
        ((parseWords_placed false _).within (skipLayout_suffix _)).widen _
      dsimp only [Placed] at hcommand
      rcases hcommand with ⟨r, hr⟩ | ⟨b, hb⟩
      · obtain ⟨commands, b, hmore⟩ := parseScript_placed r.rest
        have hwithin := r.within.trans (List.suffix_cons c rest)
        refine ⟨r.value :: commands, b.map (·.widen hwithin), fun size => ?_⟩
        rw [parseScript, hr size, Script.of, Script.of_widen, ← hmore size]
      · refine ⟨[], some b, fun size => ?_⟩
        rw [parseScript, hb size]
        rfl
termination_by text.length
decreasing_by
  have := r.within.length_le
  simp only [List.length_cons, List.tail_cons] at *
  omega

/-- A flaw is told at its place in the text if the text is the whole script, and further on if it
ends a longer one. -/
theorem Broken.error_eq {text : List Char} (b : Broken text) :
    ∃ p : Nat, b.flaw.Opens (text.drop p) ∧
      (b.malformed text.length).error = b.flaw.error (some p) ∧
      ∀ ahead : Nat,
        (b.malformed (text.length + ahead)).error = b.flaw.error (some (p + ahead)) := by
  obtain ⟨front, hfront⟩ := b.within
  have hdrop : text.drop front.length = b.place := by
    have hleft : (front ++ b.place).drop front.length = b.place := List.drop_left
    rwa [hfront] at hleft
  have hlength := congrArg List.length hfront
  rw [List.length_append] at hlength
  refine ⟨front.length, ?_, ?_, fun ahead => ?_⟩
  · rw [hdrop]
    exact b.opens
  · have hposition : (text.length : Int) - b.place.length = front.length := by omega
    exact congrArg (fun position => b.flaw.error (some position)) hposition
  · have hposition : ((text.length + ahead : Nat) : Int) - b.place.length =
        front.length + ahead := by omega
    exact congrArg (fun position => b.flaw.error (some position)) hposition

end EmbeddedTcl
