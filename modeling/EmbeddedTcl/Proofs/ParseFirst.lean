import EmbeddedTcl.Proofs.WordTree

/-!
# Parsing first

The interpreter reads a command and runs what is embedded in it at once. Nothing would change if it
first read the whole text into trees and then evaluated them: what a scan makes of a text is what
evaluation makes of its trees, in values, faults, states and the text left over. So how a text is
cut into words never depends on the state, and text that was substituted is never read again.
-/

namespace EmbeddedTcl

variable {H α β γ δ : Type}

/-! ## Results of scans -/

namespace Scan

variable {whole after whole' after' : List Char}

/-- What a scan gives: the value and the text left, or the fault. -/
def result : Scan H α whole after → Outcome H (α × List Char)
  | done value state rest _ => (.ok (value, rest), state)
  | failed fault state _ _ => (.error fault, state)

@[simp]
theorem result_widen (s : Scan H α whole after) (h : whole <:+ whole') (h' : after <:+ after') :
    (s.widen h h').result = s.result := by
  cases s <;> rfl

@[simp]
theorem result_map (f : α → β) (s : Scan H α whole after) :
    (s.map f).result = Outcome.map (fun read => (f read.1, read.2)) s.result := by
  cases s <;> rfl

theorem outcome_state (s : Scan H α whole after) :
    (s.outcome, s.state) = Outcome.map Prod.fst s.result := by
  cases s <;> rfl

/-- After a success the text left is the one that the result tells. -/
theorem rest_eq_of_result {s : Scan H α whole after} {o : Outcome H α} {rest : List Char}
    (h : s.result = Outcome.map (·, rest) o) {value : α} (hs : s.outcome = .ok value) :
    s.rest = rest := by
  rcases o with ⟨fault | value', st⟩
  · cases s with
    | done v st' r w => cases h
    | failed f st' r w => cases hs
  · cases s with
    | done v st' r w =>
        cases h
        rfl
    | failed f st' r w => cases h

/-- What a scan gives that goes on from another, seen through a view `post` that leaves faults
alone. -/
theorem post_result_andThen (post : Outcome H (β × List Char) → Outcome H δ)
    (post_error : ∀ fault st, post (.error fault, st) = (.error fault, st))
    (s : Scan H α whole after)
    (f : α → State H → (rest : List Char) → rest <:+ after → Scan H β whole after')
    (step : α → List Char → State H → Outcome H δ)
    (h : ∀ value st rest within, post (f value st rest within).result = step value rest st) :
    post (s.andThen f).result = Outcome.andThen s.result fun read st => step read.1 read.2 st := by
  cases s with
  | done value st rest within => exact h value st rest within
  | failed fault st rest within => exact post_error fault st

theorem result_andThen (s : Scan H α whole after)
    (f : α → State H → (rest : List Char) → rest <:+ after → Scan H β whole after')
    (step : α → List Char → State H → Outcome H (β × List Char))
    (h : ∀ value st rest within, (f value st rest within).result = step value rest st) :
    (s.andThen f).result = Outcome.andThen s.result fun read st => step read.1 read.2 st :=
  post_result_andThen id (fun _ _ => rfl) s f step h

end Scan

/-- A source of `size` characters in which a variable's name is what was read, wherever in `text`
the reference stands. -/
structure Source.Plain (src : Source) (size : Nat) (text : List Char) : Prop where
  size_eq : src.size = size
  nameOf_eq : ∀ rest, rest <:+ text → src.nameOf rest (VarRef.read rest) = (VarRef.read rest).name

theorem Source.Plain.suffix {src : Source} {size : Nat} {text rest : List Char}
    (h : src.Plain size text) (within : rest <:+ text) : src.Plain size rest :=
  ⟨h.size_eq, fun r hr => h.nameOf_eq r (hr.trans within)⟩

theorem Source.plain_ofText (text : List Char) : (Source.ofText text).Plain text.length text :=
  ⟨rfl, fun _ _ => rfl⟩

theorem Source.Plain.position_eq {src : Source} {size : Nat} {text : List Char}
    (h : src.Plain size text) (rest : List Char) :
    some (src.position rest) = positionOf size rest := by
  rw [Source.position, h.size_eq, positionOf]

/-- What a quoted word gives once it is known whether its closing quote was there. -/
def closeQuoted (size : Nat) (opening : List Char) (o : Outcome H (Option (List Char) × List Char)) :
    Outcome H (List Char × List Char) :=
  Outcome.andThen o fun read st =>
    match read.1 with
    | none => (.error (.script (.unclosedQuote (positionOf size opening))), st)
    | some word => (.ok (word, read.2), st)

theorem closeQuoted_map (size : Nat) (opening first : List Char)
    (o : Outcome H (Option (List Char) × List Char)) :
    closeQuoted size opening
        (Outcome.map (fun read => (read.1.map (first ++ ·), read.2)) o) =
      Outcome.map (fun read => (first ++ read.1, read.2)) (closeQuoted size opening o) := by
  rcases o with ⟨fault | ⟨_ | word, rest⟩, st⟩ <;> rfl

theorem andThen_closeQuoted (size : Nat) (opening : List Char)
    (o : Outcome H (Option (List Char) × List Char))
    (next : List Char → List Char → State H → Outcome H α) :
    Outcome.andThen (closeQuoted size opening o) (fun read st => next read.1 read.2 st) =
      Outcome.andThen o fun read st =>
        match read.1 with
        | none => (.error (.script (.unclosedQuote (positionOf size opening))), st)
        | some word => next word read.2 st := by
  rcases o with ⟨fault | ⟨_ | word, rest⟩, st⟩ <;> rfl

/-- Evaluates the words after one whose text is known. -/
def evalFollowing (d : Dispatcher H) (size : Nat) (embedded : Bool) (first rest : List Char)
    (st : State H) : Outcome H (List String × List Char) :=
  Outcome.map (fun more => (String.ofList first :: more.1, more.2))
    ((parseWords size embedded rest).run d (evalWords d) st)

theorem run_andThen_cons {text whole : List Char} (d : Dispatcher H) (size : Nat)
    (embedded : Bool) (p : Parse Word text)
    (h : ∀ word : Parsed Word text, word.rest.tail <:+ whole) (st : State H) :
    (p.andThen fun word =>
        ((parseWords size embedded word.rest).cons word.value).widen (h word)).run d
      (evalWords d) st =
      Outcome.andThen (p.run d (evalWord d) st) fun read st' =>
        evalFollowing d size embedded read.1 read.2 st' := by
  apply Parse.run_andThen
  intro word st
  rw [Parse.run_widen, Parse.run_cons]
  rfl

/-- Evaluates the rest of a bare word whose beginning is known. -/
def evalRestOfBare (d : Dispatcher H) (size : Nat) (embedded : Bool) (first rest : List Char)
    (st : State H) : Outcome H (List Char × List Char) :=
  Outcome.map (fun more => (first ++ more.1, more.2))
    ((parseBare size embedded rest).run d (evalWord d) st)

/-- The same for a quoted word. -/
def evalRestOfQuoted (d : Dispatcher H) (size : Nat) (opening first rest : List Char)
    (st : State H) : Outcome H (List Char × List Char) :=
  Outcome.map (fun more => (first ++ more.1, more.2))
    ((parseQuoted size opening rest).run d (evalWord d) st)

/-- A bare word and the words after it, if its first unit, the rest of it and what `next` reads are
each what they are parsed as. -/
theorem bareWord_result (d : Dispatcher H) (src : Source) (size : Nat) (embedded : Bool)
    (st : State H) (c : Char) (rest : List Char)
    (hunit : (scanUnit d src st c rest).result = (parseUnit size c rest).run d (Piece.eval d) st)
    (hbare : ∀ st' rest', rest' <:+ rest →
      (scanBare d src embedded st' rest').result =
        (parseBare size embedded rest').run d (evalWord d) st')
    (next : List Char → State H → (rest' : List Char) → rest' <:+ rest →
      Scan H (List String) (c :: rest) rest)
    (hnext : ∀ word st' rest' h,
      (next word st' rest' h).result = evalFollowing d size embedded word rest' st') :
    ((scanUnit d src st c rest).andThen fun first st' rest' h =>
        ((scanBare d src embedded st' rest').widen
          (h.trans (List.suffix_cons c rest)) h).andThen fun more st'' rest'' h' =>
            next (first ++ more) st'' rest'' h').result =
      Parse.run d (evalWords d)
        ((parseUnit size c rest).andThen fun first =>
          ((parseBare size embedded first.rest).push first.value).andThen fun word =>
            ((parseWords size embedded word.rest).cons word.value).widen
              ((List.tail_suffix word.rest).trans (word.within.trans first.within))) st := by
  let after : List Char → List Char → State H → Outcome H (List String × List Char) :=
    fun first rest' st' =>
      Outcome.andThen (evalRestOfBare d size embedded first rest' st') fun word st'' =>
        evalFollowing d size embedded word.1 word.2 st''
  -- on the scanning side
  refine (Scan.result_andThen _ _ after ?_).trans ?_
  · intro first st' rest' h
    refine (Scan.result_andThen _ _ (fun more rest'' st'' =>
      evalFollowing d size embedded (first ++ more) rest'' st'') ?_).trans ?_
    · intro more st'' rest'' h'
      exact hnext (first ++ more) st'' rest'' h'
    · show _ = Outcome.andThen (evalRestOfBare d size embedded first rest' st') _
      rw [Scan.result_widen, hbare st' rest' h, evalRestOfBare, Outcome.andThen_map]
  -- and on the parsing side
  · rw [hunit]
    refine Eq.symm (Parse.run_andThen d (Piece.eval d) (evalWords d) _ _ after ?_ st)
    intro first st'
    refine (run_andThen_cons d size embedded _ _ st').trans ?_
    rw [Parse.run_push, Outcome.andThen_assoc]
    rfl

mutual

/-- **Reading a command is parsing it and evaluating the trees.** -/
theorem scanWords_result (d : Dispatcher H) (src : Source) (size : Nat) (embedded : Bool)
    (st : State H) (text : List Char) (plain : src.Plain size text) :
    (scanWords d src embedded st text).result =
      (parseWords size embedded text).run d (evalWords d) st := by
  match text with
  | [] => rw [scanWords, parseWords]; rfl
  | c :: rest =>
      have plain' := plain.suffix (List.suffix_cons c rest)
      -- what follows a word, whichever way the word was read
      have following : ∀ (first : List Char) (st' : State H) (rest' : List Char)
          (h : rest' <:+ rest),
          (((scanWords d src embedded st' rest').widen (h.trans (List.suffix_cons c rest))
            ((List.tail_suffix rest').trans h)).map (String.ofList first :: ·)).result =
            evalFollowing d size embedded first rest' st' := by
        intro first st' rest' h
        rw [Scan.result_map, Scan.result_widen,
          scanWords_result d src size embedded st' rest' (plain'.suffix h)]
        rfl
      rw [scanWords, parseWords]
      split
      · rfl
      split
      -- a blank
      · exact (Scan.result_widen _ _ _).trans
          ((scanWords_result d src size embedded st rest plain').trans
            (Parse.run_widen d _ _ _ st).symm)
      split
      -- a quoted word: whether its quote is closed is known only when it has been read
      · refine (Scan.result_andThen _ _ (fun word rest' st' =>
          match word with
          | none => (.error (.script (.unclosedQuote (positionOf size (c :: rest)))), st')
          | some word => evalFollowing d size embedded word rest' st') ?_).trans ?_
        · intro word st' rest' h
          cases word with
          | none => rw [Scan.result, plain.position_eq]
          | some word => exact following word st' rest' h
        · rw [Scan.result_widen, ← andThen_closeQuoted,
            scanQuoted_result d src size st (c :: rest) rest plain']
          exact (run_andThen_cons d size embedded _ _ st).symm
      split
      -- a braced word: nothing in it is evaluated
      · cases readBraced rest with
        | error unclosed =>
            refine Eq.trans ?_ (Parse.run_malformed d _ rfl st).symm
            rw [← plain.position_eq]
            rfl
        | ok word =>
            refine (following word.value st word.rest word.within).trans ?_
            refine Eq.symm ((Parse.run_widen d _ _ _ st).trans ?_)
            rw [Parse.run_cons, evalWord_char]
            rfl
      · exact bareWord_result d src size embedded st c rest
          (scanUnit_result d src size st c rest plain)
          (fun st' rest' h => scanBare_result d src size embedded st' rest' (plain'.suffix h))
          _ following
termination_by 4 * text.length + 2
decreasing_by
  · have := h.length_le
    simp only [List.length_cons]
    omega
  · simp only [List.length_cons]
    omega
  · have := h.length_le
    simp only [List.length_cons]
    omega
  · simp only [List.length_cons]
    omega
  · simp only [List.length_cons]
    omega

theorem scanBare_result (d : Dispatcher H) (src : Source) (size : Nat) (embedded : Bool)
    (st : State H) (text : List Char) (plain : src.Plain size text) :
    (scanBare d src embedded st text).result =
      (parseBare size embedded text).run d (evalWord d) st := by
  match text with
  | [] => rw [scanBare, parseBare]; rfl
  | c :: rest =>
      have plain' := plain.suffix (List.suffix_cons c rest)
      rw [scanBare, parseBare]
      split
      · rfl
      · refine (Scan.result_andThen _ _ (evalRestOfBare d size embedded) ?_).trans ?_
        · intro first st' rest' h
          rw [Scan.result_map, Scan.result_widen,
            scanBare_result d src size embedded st' rest' (plain'.suffix h)]
          rfl
        · rw [scanUnit_result d src size st c rest plain]
          refine Eq.symm (Parse.run_andThen d (Piece.eval d) (evalWord d) (parseUnit size c rest) _
            (evalRestOfBare d size embedded) ?_ st)
          intro first st'
          rw [Parse.run_widen, Parse.run_push]
          rfl
termination_by 4 * text.length + 1
decreasing_by
  · have := h.length_le
    simp only [List.length_cons]
    omega
  · simp only [List.length_cons]
    omega

theorem scanQuoted_result (d : Dispatcher H) (src : Source) (size : Nat) (st : State H)
    (opening text : List Char) (plain : src.Plain size text) :
    closeQuoted size opening (scanQuoted d src st text).result =
      (parseQuoted size opening text).run d (evalWord d) st := by
  match text with
  | [] => rw [scanQuoted, parseQuoted]; rfl
  | c :: rest =>
      have plain' := plain.suffix (List.suffix_cons c rest)
      rw [scanQuoted, parseQuoted]
      split
      · rfl
      · refine (Scan.post_result_andThen (closeQuoted size opening) (fun _ _ => rfl) _ _
          (evalRestOfQuoted d size opening) ?_).trans ?_
        · intro first st' rest' h
          rw [Scan.result_map, Scan.result_widen, closeQuoted_map,
            scanQuoted_result d src size st' opening rest' (plain'.suffix h)]
          rfl
        · rw [scanUnit_result d src size st c rest plain]
          refine Eq.symm (Parse.run_andThen d (Piece.eval d) (evalWord d) (parseUnit size c rest) _
            (evalRestOfQuoted d size opening) ?_ st)
          intro first st'
          rw [Parse.run_widen, Parse.run_push]
          rfl
termination_by 4 * text.length + 1
decreasing_by
  · have := h.length_le
    simp only [List.length_cons]
    omega
  · simp only [List.length_cons]
    omega

theorem scanUnit_result (d : Dispatcher H) (src : Source) (size : Nat) (st : State H) (c : Char)
    (rest : List Char) (plain : src.Plain size (c :: rest)) :
    (scanUnit d src st c rest).result = (parseUnit size c rest).run d (Piece.eval d) st := by
  have plain' := plain.suffix (List.suffix_cons c rest)
  rw [scanUnit, parseUnit]
  split
  · cases readEscape rest with
    | error e =>
        refine Eq.trans ?_ (Parse.run_malformed d _ rfl st).symm
        rw [← plain.position_eq]
        rfl
    | ok escape => rfl
  split
  · simp only [plain.nameOf_eq rest (List.suffix_cons c rest), Parse.run, Piece.eval]
    cases st.lookup (VarRef.read rest).name <;> rfl
  split
  · rw [Scan.result_widen, Parse.run_command, Parse.run_widen]
    exact scanEmbedded_result d src size st rest plain'
  · rfl
termination_by 4 * rest.length + 4

theorem scanEmbedded_result (d : Dispatcher H) (src : Source) (size : Nat) (st : State H)
    (text : List Char) (plain : src.Plain size text) :
    (scanEmbedded d src st text).result =
      Outcome.andThen ((parseWords size true (skipLayout text)).run d (evalWords d) st)
        fun read st' => Outcome.map (·, read.2) (runEmbedded d read.1 st') := by
  rw [scanEmbedded]
  refine (Scan.result_andThen _ _ (fun words rest st' =>
    Outcome.map (·, rest) (runEmbedded d words st')) ?_).trans ?_
  · intro words st' rest h
    rw [runEmbedded]
    split
    · rfl
    · rcases d words { st' with pendingReturn := false } with ⟨fault | completion, st''⟩ <;> rfl
  · rw [Scan.result_widen,
      scanWords_result d src size true st (skipLayout text) (plain.suffix (skipLayout_suffix text))]
termination_by 4 * text.length + 3
decreasing_by
  have := (skipLayout_suffix text).length_le
  omega

end

/-! ## Whole scripts -/

theorem scanCommand_result (d : Dispatcher H) (src : Source) (size : Nat) (embedded : Bool)
    (st : State H) (text : List Char) (plain : src.Plain size text) :
    (scanCommand d src embedded st text).result =
      (parseCommand size embedded text).run d (evalWords d) st := by
  rw [scanCommand, parseCommand, Scan.result_widen, Parse.run_widen]
  exact scanWords_result d src size embedded st _ (plain.suffix (skipLayout_suffix text))

/-- Goes on with a script after the words of a command. -/
def followCommand (d : Dispatcher H) (size : Nat) (last : Completion) (texts : List String)
    (rest : List Char) (st : State H) : Outcome H Completion :=
  if texts.isEmpty then (parseScript size rest).run d last { st with pendingReturn := false }
  else
    Outcome.andThen (d texts { st with pendingReturn := false }) fun completion st' =>
      if (completion.returningIf st.pendingReturn).returning then
        (.ok (completion.returningIf st.pendingReturn), st')
      else (parseScript size rest).run d completion st'

theorem parseScript_run (d : Dispatcher H) (size : Nat) (last : Completion) (st : State H) (c : Char)
    (rest : List Char) :
    (parseScript size (c :: rest)).run d last st =
      Outcome.andThen ((parseCommand size false (c :: rest)).run d (evalWords d) st)
        fun read st' => followCommand d size last read.1 read.2 st' := by
  rw [parseScript]
  cases parseCommand size false (c :: rest) with
  | error m =>
      refine Eq.trans ?_ (Malformed.andThen_raise d m st _).symm
      rw [Script.run]
  | ok r =>
      simp only [Script.run, Parse.run, Outcome.andThen_map]
      rfl

/-- **Running a script is parsing it and running its commands.** -/
theorem runScript_result (d : Dispatcher H) (src : Source) (size : Nat) (last : Completion)
    (st : State H) (text : List Char) (plain : src.Plain size text) :
    Outcome.map Prod.fst (runScript d src last st text).result =
      (parseScript size text).run d last st := by
  match text with
  | [] => rw [runScript, parseScript, Script.run]; rfl
  | c :: rest =>
      rw [runScript, parseScript_run]
      refine (Scan.post_result_andThen (Outcome.map Prod.fst) (fun _ _ => rfl) _ _
        (followCommand d size last) ?_).trans ?_
      · intro texts st' rest' h
        have plain' := plain.suffix (h.trans (List.suffix_cons c rest))
        rw [followCommand]
        split
        · rw [Scan.result_widen]
          exact runScript_result d src size last _ rest' plain'
        · rcases d texts { st' with pendingReturn := false } with ⟨fault | completion, st''⟩
          · rfl
          · rw [Outcome.andThen_ok]
            dsimp only
            split
            · rfl
            · rw [Scan.result_widen]
              exact runScript_result d src size completion st'' rest' plain'
      · rw [scanCommand_result d src size false st (c :: rest) plain]
termination_by text.length
decreasing_by
  all_goals
    have := h.length_le
    simp only [List.length_cons, List.tail_cons] at *
    omega

theorem evaluateScript_eq_run (d : Dispatcher H) (script : String) (st : State H) :
    evaluateScript d script st = (Script.ofString script).run d {} st := by
  have h := runScript_result d _ _ {} st script.toList (Source.plain_ofText script.toList)
  rw [Script.ofString, ← h, evaluateScript]
  cases runScript d (.ofText script.toList) {} st script.toList <;> rfl

theorem evaluate_eq_run (d : Dispatcher H) (script : String) (st : State H) :
    evaluate d script st =
      Outcome.map Completion.value
        ((Script.ofString script).run d {} { st with pendingReturn := false }) := by
  rw [evaluate, evaluateScript_eq_run]
  rcases (Script.ofString script).run d {} { st with pendingReturn := false } with
    ⟨fault | completion, st'⟩ <;> rfl

end EmbeddedTcl
