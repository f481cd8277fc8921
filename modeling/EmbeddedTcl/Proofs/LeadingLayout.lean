import EmbeddedTcl.Proofs.Flaws
import EmbeddedTcl.Proofs.Spelling

/-!
# Layout in front of a script

Blanks, semicolons and comments in front of a script change nothing but the positions that are told
of its own flaws. Blanks and comments are skipped where a command may start, and a semicolon ends a
command that has no words. A comment is described by its newlines, not by how it is skipped: all but
the last come after an odd number of backslashes.
-/

namespace EmbeddedTcl

variable {H : Type}

/-! ## Comments -/

/-- How many backslashes stand at the end of a text. -/
def trailingBackslashes (text : List Char) : Nat :=
  (text.reverse.takeWhile (· == '\\')).length

/-- The text between the `#` of a comment and the newline that ends it. A newline in it comes after
an odd number of backslashes, and the one that ends it after an even number. -/
structure CommentBody (inner : List Char) : Prop where
  goesOn : ∀ front back, inner = front ++ '\n' :: back → trailingBackslashes front % 2 = 1
  ends : trailingBackslashes inner % 2 = 0

theorem trailingBackslashes_append_cons (front : List Char) {c : Char} (hc : c ≠ '\\')
    (back : List Char) : trailingBackslashes (front ++ c :: back) = trailingBackslashes back := by
  simp only [trailingBackslashes, List.reverse_append, List.reverse_cons, List.append_assoc,
    List.takeWhile_append]
  split
  · rename_i h
    simp [hc, h]
  · rfl

/-- A backslash and the character after it do not matter for whether the number is odd. -/
theorem trailingBackslashes_pair (c : Char) (text : List Char) :
    trailingBackslashes ('\\' :: c :: text) % 2 = trailingBackslashes text % 2 := by
  by_cases hc : c = '\\'
  · subst hc
    simp only [trailingBackslashes, List.reverse_cons, List.append_assoc, List.takeWhile_append]
    split
    · rename_i h
      simp [h]
    · rfl
  · exact congrArg (· % 2) (trailingBackslashes_append_cons ['\\'] hc text)

theorem skipComment_plain {c : Char} (hbackslash : c ≠ '\\') (hnewline : c ≠ '\n')
    (text : List Char) : skipComment (c :: text) = skipComment text := by
  rw [skipComment]
  · exact hnewline
  · exact fun _ h => absurd h hbackslash
  · exact fun _ h => absurd h hbackslash

theorem skipComment_pair (c : Char) (text : List Char) :
    skipComment ('\\' :: c :: text) = skipComment text := by
  by_cases hnewline : c = '\n'
  · subst hnewline
    rw [skipComment]
  by_cases hbackslash : c = '\\'
  · subst hbackslash
    rw [skipComment]
  · have hskip : skipComment ('\\' :: c :: text) = skipComment (c :: text) := by
      rw [skipComment]
      · decide
      · rintro rest - ⟨⟩
        exact hnewline rfl
      · rintro rest - ⟨⟩
        exact hbackslash rfl
    rw [hskip, skipComment_plain hbackslash hnewline]

/-- What is left of a comment after characters that make no difference to which numbers of
backslashes are odd. -/
theorem CommentBody.drop (front : List Char) {inner : List Char} (h : CommentBody (front ++ inner))
    (hfront : ∀ text, trailingBackslashes (front ++ text) % 2 = trailingBackslashes text % 2) :
    CommentBody inner where
  goesOn := by
    intro front' back heq
    rw [← hfront]
    exact h.goesOn (front ++ front') back (by rw [heq, List.append_assoc])
  ends := by
    rw [← hfront]
    exact h.ends

/-- The newline that ends a comment is the one that is found. -/
theorem CommentBody.skipComment_append {inner : List Char} (h : CommentBody inner)
    (text : List Char) : skipComment (inner ++ '\n' :: text) = text := by
  cases inner with
  | nil => rw [List.nil_append, skipComment]
  | cons c inner =>
      -- a backslash is skipped along with what follows it, so the step is two characters long
      by_cases hbackslash : c = '\\'
      · subst hbackslash
        cases inner with
        | nil => exact absurd h.ends (by decide)
        | cons c inner =>
            have hinner : CommentBody inner := .drop ['\\', c] h (trailingBackslashes_pair c)
            rw [List.cons_append, List.cons_append, skipComment_pair, hinner.skipComment_append]
      · have hnewline : c ≠ '\n' := by
          rintro rfl
          exact absurd (h.goesOn [] inner rfl) (by decide)
        have hinner : CommentBody inner := .drop [c] h fun text =>
          congrArg (· % 2) (trailingBackslashes_append_cons [] hbackslash text)
        rw [List.cons_append, skipComment_plain hbackslash hnewline, hinner.skipComment_append]

/-! ## Layout -/

/-- Blanks, semicolons and comments in any order. -/
inductive Layout : List Char → Prop where
  | nil : Layout []
  | blank {c : Char} {more : List Char} (blank : isBlank c = true) (h : Layout more) :
      Layout (c :: more)
  | semicolon {more : List Char} (h : Layout more) : Layout (';' :: more)
  | comment {inner more : List Char} (body : CommentBody inner) (h : Layout more) :
      Layout ('#' :: (inner ++ '\n' :: more))

theorem skipLayout_blank {c : Char} (hc : isBlank c = true) (text : List Char) :
    skipLayout (c :: text) = skipLayout text := by
  have hblank : skipBlank (c :: text) = skipBlank text := List.dropWhile_cons_of_pos hc
  rw [skipLayout, skipLayout, hblank]

theorem CommentBody.skipLayout_append {inner : List Char} (h : CommentBody inner)
    (text : List Char) : skipLayout ('#' :: (inner ++ '\n' :: text)) = skipLayout text := by
  have hblank : skipBlank ('#' :: (inner ++ '\n' :: text)) = '#' :: (inner ++ '\n' :: text) :=
    List.dropWhile_cons_of_neg (by decide)
  rw [skipLayout, hblank]
  exact congrArg skipLayout (h.skipComment_append text)

/-! ## Scripts that start with layout -/

/-- A script from where its first command starts. -/
def scriptFrom (size : Nat) (text : List Char) : Script :=
  match parseWords size false text with
  | .error m => .broken m
  | .ok r => .command r.value (parseScript size r.rest)

section

variable (d : Dispatcher H) (size : Nat) (last : Completion) {st : State H}

/-- Layout is skipped before a script starts. At the end of a text this leaves a command without
words, which does nothing. -/
theorem parseScript_run_skipLayout (h : st.pendingReturn = false) (text : List Char) :
    (parseScript size text).run d last st = (scriptFrom size (skipLayout text)).run d last st := by
  cases text with
  | nil =>
      have hempty : skipLayout [] = [] := by
        rw [skipLayout]
        rfl
      rw [hempty, scriptFrom, parseWords, parseScript]
      simp only [Script.run, evalWords, Outcome.andThen_ok, List.isEmpty_nil, if_true,
        parseScript, State.clear_pending h]
  | cons c rest =>
      rw [parseScript, parseCommand, scriptFrom]
      cases parseWords size false (skipLayout (c :: rest)) <;> rfl

theorem scriptFrom_run_semicolon (h : st.pendingReturn = false) (text : List Char) :
    (scriptFrom size (';' :: text)).run d last st = (parseScript size text).run d last st := by
  rw [scriptFrom, parseWords, if_pos (.inl rfl)]
  simp only [Script.run, evalWords, Outcome.andThen_ok, List.isEmpty_nil, if_true,
    State.clear_pending h]

theorem Layout.run_append {b : List Char} (hb : Layout b) (h : st.pendingReturn = false)
    (text : List Char) :
    (parseScript size (b ++ text)).run d last st = (parseScript size text).run d last st := by
  induction hb with
  | nil => rfl
  | blank hblank _ ih =>
      rw [← ih, parseScript_run_skipLayout d size last h, List.cons_append,
        skipLayout_blank hblank, ← parseScript_run_skipLayout d size last h]
  | semicolon _ ih =>
      rw [← ih, parseScript_run_skipLayout d size last h, List.cons_append,
        skipLayout_of_ne (by decide) (by decide), scriptFrom_run_semicolon d size last h]
  | comment hbody _ ih =>
      rw [← ih, parseScript_run_skipLayout d size last h, List.cons_append, List.append_assoc,
        List.cons_append, hbody.skipLayout_append, ← parseScript_run_skipLayout d size last h]

end

/-! ## Flaws that a run comes to -/

/-- There is a value, and `P` holds of it and of the state that was left. -/
def Outcome.Succeeds {α : Type} (o : Outcome H α) (P : α → State H → Prop) : Prop :=
  match o with
  | (.ok value, st) => P value st
  | (.error _, _) => False

/-- A run that comes to the flaw of its own script: all commands in front of it end without a fault
and without a return, and what stands complete of the command with the flaw is evaluated without a
fault. -/
def Script.Breaks (d : Dispatcher H) : Script → State H → Prop
  | .stop, _ => False
  | .broken m, st => Outcome.Succeeds (evalWord d m.before st) fun _ _ => True
  | .command words more, st =>
    Outcome.Succeeds (evalWords d words st) fun texts st' =>
      if texts.isEmpty then more.Breaks d { st' with pendingReturn := false }
      else
        Outcome.Succeeds (d texts { st' with pendingReturn := false }) fun completion st'' =>
          (completion.returningIf st'.pendingReturn).returning = false ∧ more.Breaks d st''

/-- Two runs of one text as the end of scripts of different sizes: the same, or, if the run breaks,
the same but for the position that is told. -/
def Moved {text : List Char} (flawed : Option (Broken text)) (size size' : Nat) (breaks : Prop)
    (o o' : Outcome H Completion) : Prop :=
  (¬ breaks ∧ o' = o) ∨
    breaks ∧ ∃ b ∈ flawed, ∃ st, o = (.error (.script (b.malformed size).error), st) ∧
      o' = (.error (.script (b.malformed size').error), st)

section

variable {text : List Char} {flawed : Option (Broken text)} {size size' : Nat}

theorem Moved.andThen {α : Type} (o : Outcome H α) {next next' : α → State H → Outcome H Completion}
    {P : α → State H → Prop}
    (h : ∀ value st, Moved flawed size size' (P value st) (next value st) (next' value st)) :
    Moved flawed size size' (o.Succeeds P) (o.andThen next) (o.andThen next') := by
  rcases o with ⟨fault | value, st⟩
  · exact .inl ⟨id, rfl⟩
  · exact h value st

/-- The size of a script matters for nothing but the position of its own flaw. -/
theorem Script.run_of (d : Dispatcher H) (commands : List (List Word)) :
    ∀ (last : Completion) (st : State H),
      Moved flawed size size' ((Script.of size commands flawed).Breaks d st)
        ((Script.of size commands flawed).run d last st)
        ((Script.of size' commands flawed).run d last st) := by
  induction commands with
  | nil =>
      intro last st
      cases flawed with
      | none => exact .inl ⟨id, rfl⟩
      | some b =>
          refine Moved.andThen (evalWord d b.before st) fun _ st' => ?_
          exact .inr ⟨trivial, b, rfl, st', rfl, rfl⟩
  | cons words more ih =>
      intro last st
      refine Moved.andThen (evalWords d words st) fun texts st' => ?_
      split
      · exact ih last _
      · refine Moved.andThen _ fun completion st'' => ?_
        split
        · rename_i hreturning
          refine .inl ⟨?_, rfl⟩
          rintro ⟨hstays, _⟩
          rw [hstays] at hreturning
          cases hreturning
        · rename_i hstays
          simp only [Bool.eq_false_iff.2 hstays, true_and]
          exact ih completion st''

end

/-! ## The law -/

/-- **Layout in front of a script is neutral.** Let `b` be blanks, semicolons and comments in any
order. With `b` in front, a script does what it does without, and leaves the same state. Only if the
run comes to a flaw of the script's own text, the position that is told is moved by the length of
`b`. By itself `b` gives the empty value, and no command is dispatched, whoever dispatches. -/
theorem layout_in_front_is_neutral (env : Env H) {b : List Char} (hb : Layout b) (u : String)
    (st : State H) :
    let ready := { st with pendingReturn := false }
    let breaks := (Script.ofString u).Breaks env.dispatch ready
    let o := env.evaluate u st
    let o' := env.evaluate (String.ofList b ++ u) st
    (¬ breaks → o' = o) ∧
    (breaks → ∃ (flaw : Flaw) (p : Nat), flaw.Opens (u.toList.drop p) ∧
      o.1 = .error (.script (flaw.error (some p))) ∧
      o' = (.error (.script (flaw.error (some (p + b.length)))), o.2)) ∧
    env.evaluate (String.ofList b) st = (.ok "", ready) ∧
    ∀ d : Dispatcher H, EmbeddedTcl.evaluate d (String.ofList b) st = (.ok "", ready) := by
  intro ready breaks o o'
  have hready : ready.pendingReturn = false := rfl
  obtain ⟨commands, flawed, hparse⟩ := parseScript_placed u.toList
  have hscript : Script.ofString u = .of u.toList.length commands flawed := hparse _
  have ho : o = Outcome.map Completion.value
      ((Script.of u.toList.length commands flawed).run env.dispatch {} ready) := by
    rw [← hscript, ← env.evaluateScript_run]
    exact env.evaluate_eq u st
  have ho' : o' = Outcome.map Completion.value
      ((Script.of (u.toList.length + b.length) commands flawed).run env.dispatch {} ready) := by
    have hwhole : Script.ofString (String.ofList b ++ u) =
        parseScript (u.toList.length + b.length) (b ++ u.toList) := by
      rw [Script.ofString, String.toList_append, String.toList_ofList, List.length_append,
        Nat.add_comm]
    rw [← hparse, ← hb.run_append env.dispatch _ {} hready, ← hwhole,
      ← env.evaluateScript_run]
    exact env.evaluate_eq _ st
  have halone : ∀ d : Dispatcher H,
      EmbeddedTcl.evaluate d (String.ofList b) st = (.ok "", ready) := by
    intro d
    have hrun := hb.run_append d b.length {} hready []
    rw [List.append_nil] at hrun
    rw [evaluate_eq_run, Script.ofString, String.toList_ofList, hrun, parseScript]
    rfl
  have hmoved : Moved flawed u.toList.length (u.toList.length + b.length) _ _ _ :=
    Script.run_of env.dispatch commands {} ready
  rcases hmoved with ⟨hstays, hsame⟩ | ⟨hbreaks, flaw, _, st', hrun, hrun'⟩
  · rw [← hscript] at hstays
    refine ⟨fun _ => ?_, fun h => absurd h hstays, halone _, halone⟩
    rw [ho, ho', hsame]
  · rw [← hscript] at hbreaks
    refine ⟨fun h => absurd hbreaks h, fun _ => ?_, halone _, halone⟩
    obtain ⟨p, hopens, hown, hmoved⟩ := flaw.error_eq
    rw [ho, ho', hrun, hrun', hown, hmoved]
    exact ⟨flaw.flaw, p, hopens, rfl, rfl⟩

/-- A comment that goes on after a newline, in front of a script without flaws and of one whose
second command has a flaw. -/
theorem layout_in_front_is_neutral_comment :
    let env := Config.bare.env
    let b := [';', '\t', '#', 'a', '\\', '\n', ';', '\n']
    let flawed := "set x 1; set y \"$x"
    Layout b ∧
    env.evaluate (String.ofList b ++ "set x 1") .initial = env.evaluate "set x 1" .initial ∧
    Outcome.fault? (env.evaluate flawed .initial) = some (.script (.unclosedQuote (some 15))) ∧
    env.evaluate (String.ofList b ++ flawed) .initial =
      (.error (.script (.unclosedQuote (some 23))), (env.evaluate flawed .initial).2) := by
  intro env b flawed
  have hbody : CommentBody ['a', '\\', '\n', ';'] :=
    { goesOn := by
        intro front back heq
        obtain _ | ⟨c₀, _ | ⟨c₁, _ | ⟨c₂, _ | ⟨c₃, more⟩⟩⟩⟩ := front <;> simp at heq
        obtain ⟨rfl, rfl, _⟩ := heq
        decide
      ends := by decide }
  have hb : Layout b := .semicolon (.blank (by decide) (.comment hbody .nil))
  have hvalue : (env.evaluate "set x 1" .initial).1.toOption = some "1" := by decide +kernel
  have hfault : Outcome.fault? (env.evaluate flawed .initial) =
      some (.script (.unclosedQuote (some 15))) := by decide +kernel
  have hfault' : Outcome.fault? (env.evaluate (String.ofList b ++ flawed) .initial) =
      some (.script (.unclosedQuote (some 23))) := by decide +kernel
  obtain ⟨hsame, hmoved, _⟩ := layout_in_front_is_neutral env hb "set x 1" .initial
  obtain ⟨hsame', hmoved', _⟩ := layout_in_front_is_neutral env hb flawed .initial
  refine ⟨hb, hsame ?_, hfault, ?_⟩
  · intro hbreaks
    obtain ⟨flaw, p, _, herror, _⟩ := hmoved hbreaks
    rw [herror] at hvalue
    cases hvalue
  · have hbreaks : (Script.ofString flawed).Breaks env.dispatch .initial := by
      refine Classical.byContradiction fun hstays => ?_
      rw [hsame' hstays, hfault] at hfault'
      exact absurd hfault' (by decide)
    obtain ⟨flaw, p, _, herror, hmove⟩ := hmoved' hbreaks
    rw [Outcome.fault?_eq_some.1 hfault] at herror
    cases flaw with
    | openQuote =>
        simp only [Flaw.error, Except.error.injEq, Fault.script.injEq, Error.unclosedQuote.injEq,
          Option.some.injEq] at herror
        rw [hmove, ← herror]
        rfl
    | openBrace => cases herror
    | numericEscape c form => cases herror

end EmbeddedTcl
