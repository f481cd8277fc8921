import EmbeddedTcl.Proofs.Machine
import EmbeddedTcl.Proofs.PureParse
import EmbeddedTcl.Proofs.Trace

/-!
# Termination

The machine does what evaluation does: from the start of a script it gets to a halt with the same
value or fault and the same state. Each routine is followed on its own, whatever tasks and callers
are below it, and a run of the whole is put together from these. Since nothing but the script and
the two limits bounds the machine, evaluation ends by itself.
-/

namespace EmbeddedTcl

variable {α β : Type}

namespace Machine

/-! ## From one machine to another -/

/-- A number of steps leads from one machine to another. -/
def Leads (limits : Limits) (m m' : Machine) : Prop :=
  ∃ n, m.run limits n = m'

theorem run_add (limits : Limits) (n k : Nat) (m : Machine) :
    m.run limits (n + k) = (m.run limits n).run limits k := by
  induction n generalizing m with
  | zero => rw [Nat.zero_add, run]
  | succ n ih =>
      rw [Nat.succ_add]
      exact ih _

namespace Leads

variable {limits : Limits} {m m' m'' : Machine}

theorem refl (m : Machine) : Leads limits m m :=
  ⟨0, rfl⟩

theorem trans (h : Leads limits m m') (h' : Leads limits m' m'') : Leads limits m m'' := by
  obtain ⟨n, rfl⟩ := h
  obtain ⟨k, rfl⟩ := h'
  exact ⟨n + k, run_add limits n k m⟩

theorem step (h : Leads limits (m.step limits) m') : Leads limits m m' := by
  obtain ⟨n, rfl⟩ := h
  exact ⟨n + 1, rfl⟩

/-- A step of a machine that reads is what its reader does next. -/
theorem read {r : Reader} {callers : List Caller} {st : State Empty} {action : Action}
    (hstep : r.step = action) (h : Leads limits (act limits callers st action) m) :
    Leads limits (reading r callers st) m := by
  refine step ?_
  rw [Machine.step, hstep]
  exact h

end Leads

/-! ## Routines that only read -/

section

variable (limits : Limits) (callers : List Caller) (st : State Empty) (r : Reader)
  (below : List Task)

theorem leads_comment (text : List Char) :
    Leads limits (reading (r.on (.comment :: below) text) callers st)
      (reading (r.on below (skipComment text)) callers st) := by
  fun_induction skipComment text with
  | case1 => exact .step (.refl _)
  | case2 rest => exact .step (.refl _)
  | case3 rest ih => exact .step ih
  | case4 rest ih => exact .step ih
  | case5 c rest hnewline hescaped hbackslash ih =>
      have hstep : (r.on (.comment :: below) (c :: rest)).step =
          .go (r.on (.comment :: below) rest) := by
        simp only [Reader.step, Reader.on]
        rw [Reader.skipCommentStep]
        · rfl
        all_goals assumption
      exact .read hstep ih

theorem leads_blank (embedded : Bool) (text : List Char) :
    Leads limits (reading (r.on (.layout embedded :: below) text) callers st)
      (reading (r.on (.layout embedded :: below) (skipBlank text)) callers st) := by
  induction text with
  | nil => exact .refl _
  | cons c rest ih =>
      by_cases hblank : isBlank c = true
      · have hstep : (r.on (.layout embedded :: below) (c :: rest)).step =
            .go (r.on (.layout embedded :: below) rest) := by
          simp only [Reader.step, Reader.on, Reader.skipLayoutStep, hblank, if_true]
        rw [skipBlank, List.dropWhile_cons_of_pos hblank]
        exact .read hstep ih
      · rw [skipBlank, List.dropWhile_cons_of_neg hblank]
        exact .refl _

theorem leads_layout (embedded : Bool) (text : List Char) :
    Leads limits (reading (r.on (.layout embedded :: below) text) callers st)
      (reading (r.on (.command embedded [] :: below) (skipLayout text)) callers st) := by
  fun_induction skipLayout text with
  | case1 text rest heq ih =>
      refine (leads_blank limits callers st r below embedded text).trans ?_
      rw [heq]
      -- a comment, and layout again behind it
      exact .step ((leads_comment limits callers st r _ rest).trans ih)
  | case2 text hcomment =>
      refine (leads_blank limits callers st r below embedded text).trans ?_
      have hhead := List.head?_dropWhile_not isBlank text
      rw [← skipBlank] at hhead
      generalize skipBlank text = text' at hcomment hhead
      cases text' with
      | nil => exact .step (.refl _)
      | cons c rest =>
          have hblank : isBlank c = false := hhead
          have hsign : c ≠ '#' := by
            rintro rfl
            exact hcomment rest rfl
          have hstep : (r.on (.layout embedded :: below) (c :: rest)).step =
              .go (r.on (.command embedded [] :: below) (c :: rest)) := by
            simp [Reader.step, Reader.on, Reader.skipLayoutStep, hblank, hsign]
          exact .read hstep (.refl _)

theorem leads_bracedName (text : List Char) : ∀ chars : List Char,
    Leads limits (reading (r.on (.bracedName chars :: below) text) callers st)
      (act limits callers st (.lookup (String.ofList (chars ++ text.takeWhile (· != '}')))
        (r.on below ((text.dropWhile (· != '}')).drop 1)))) := by
  induction text with
  | nil =>
      intro chars
      rw [List.takeWhile_nil, List.append_nil]
      exact .step (.refl _)
  | cons c rest ih =>
      intro chars
      by_cases hend : c = '}'
      · subst hend
        simp only [List.takeWhile_cons_of_neg, List.dropWhile_cons_of_neg, bne_self_eq_false,
          Bool.false_eq_true, not_false_eq_true, List.append_nil]
        exact .step (.refl _)
      · have hstep : (r.on (.bracedName chars :: below) (c :: rest)).step =
            .go (r.on (.bracedName (chars ++ [c]) :: below) rest) := by
          simp [Reader.step, Reader.on, Reader.bracedNameStep, hend]
        have hne : (c != '}') = true := by simpa using hend
        have hrest := ih (chars ++ [c])
        rw [List.append_assoc] at hrest
        simp only [List.takeWhile_cons, List.dropWhile_cons, hne, if_true]
        exact .read hstep hrest

theorem leads_index (text : List Char) : ∀ chars : List Char,
    Leads limits (reading (r.on (.index chars :: below) text) callers st)
      (act limits callers st (.lookup (String.ofList (chars ++ (text.takeWhile isIndexChar ++
          if (text.dropWhile isIndexChar).head? = some ')' then [')'] else [])))
        (r.on below ((text.dropWhile isIndexChar).drop 1)))) := by
  induction text with
  | nil =>
      intro chars
      simp only [List.takeWhile_nil, List.dropWhile_nil, List.head?_nil, reduceCtorEq, if_false,
        List.append_nil]
      exact .step (.refl _)
  | cons c rest ih =>
      intro chars
      by_cases hindex : isIndexChar c = true
      · have hstep : (r.on (.index chars :: below) (c :: rest)).step =
            .go (r.on (.index (chars ++ [c]) :: below) rest) := by
          simp [Reader.step, Reader.on, Reader.indexStep, hindex]
        have hrest := ih (chars ++ [c])
        rw [List.append_assoc] at hrest
        rw [List.takeWhile_cons_of_pos hindex, List.dropWhile_cons_of_pos hindex,
          List.cons_append]
        exact .read hstep hrest
      -- the character that ends the index is taken along, and kept if it closes it
      · have hstep : (r.on (.index chars :: below) (c :: rest)).step =
            .lookup (String.ofList (chars ++ if c = ')' then [')'] else [])) (r.on below rest) := by
          show Reader.indexStep _ chars below (c :: rest) = _
          rw [Reader.indexStep, if_neg hindex]
          by_cases hclose : c = ')'
          · rw [if_pos hclose, if_pos hclose, hclose]
            rfl
          · rw [if_neg hclose, if_neg hclose, List.append_nil]
            rfl
        refine .read hstep ?_
        rw [List.takeWhile_cons_of_neg hindex, List.dropWhile_cons_of_neg hindex, List.nil_append]
        simp only [List.head?_cons, Option.some.injEq]
        exact .refl _

theorem leads_nameChars (text : List Char) : ∀ chars : List Char,
    Leads limits (reading (r.on (.plainName chars :: below) text) callers st)
      (reading (r.on (.plainName (chars ++ text.takeWhile isNameChar) :: below)
        (text.dropWhile isNameChar)) callers st) := by
  induction text with
  | nil =>
      intro chars
      rw [List.takeWhile_nil, List.append_nil]
      exact .refl _
  | cons c rest ih =>
      intro chars
      by_cases hname : isNameChar c = true
      · have hstep : (r.on (.plainName chars :: below) (c :: rest)).step =
            .go (r.on (.plainName (chars ++ [c]) :: below) rest) := by
          simp [Reader.step, Reader.on, Reader.plainNameStep, hname]
        have hrest := ih (chars ++ [c])
        rw [List.append_assoc] at hrest
        rw [List.takeWhile_cons_of_pos hname, List.dropWhile_cons_of_pos hname]
        exact .read hstep hrest
      · rw [List.takeWhile_cons_of_neg hname, List.dropWhile_cons_of_neg hname, List.append_nil]
        exact .refl _

theorem leads_plainName (text : List Char) :
    Leads limits (reading (r.on (.plainName [] :: below) text) callers st)
      (act limits callers st (.lookup (VarRef.readPlain text).name
        (r.on below (VarRef.readPlain text).rest))) := by
  refine (leads_nameChars limits callers st r below text []).trans ?_
  rw [List.nil_append, VarRef.name]
  fun_cases VarRef.readPlain text with
  | case1 base rest heq ref =>
      rw [heq]
      refine .step ?_
      have hindex := leads_index limits callers st r below rest (base ++ ['('])
      rw [List.append_assoc] at hindex
      exact hindex
  | case2 base hopen =>
      have hhead := List.head?_dropWhile_not isNameChar text
      dsimp only
      rw [List.append_nil]
      generalize text.dropWhile isNameChar = rest at hopen hhead
      cases rest with
      | nil => exact .step (.refl _)
      | cons c rest =>
          have hname : isNameChar c = false := hhead
          have hparen : c ≠ '(' := by
            rintro rfl
            exact hopen rest rfl
          have hstep : (r.on (.plainName base :: below) (c :: rest)).step =
              .lookup (String.ofList base) (r.on below (c :: rest)) := by
            simp [Reader.step, Reader.on, Reader.plainNameStep, hname, hparen]
          exact .read hstep (.refl _)

theorem leads_variable (tasks : List Task) (rest : List Char) :
    Leads limits (act limits callers st (r.unitStep tasks '$' rest))
      (act limits callers st (.lookup (VarRef.read rest).name
        (r.on tasks (VarRef.read rest).rest))) := by
  by_cases h : rest.head? = some '{'
  · obtain ⟨rest, rfl⟩ := List.head?_eq_some_iff.1 h
    have hname := leads_bracedName limits callers st r tasks rest []
    have hread : (VarRef.read ('{' :: rest)).name = String.ofList (rest.takeWhile (· != '}')) := by
      simp [VarRef.read, VarRef.name, VarRef.readBraced]
    rw [hread]
    exact hname
  · have hunit : r.unitStep tasks '$' rest = .go (r.on (.plainName [] :: tasks) rest) := by
      unfold Reader.unitStep
      rw [if_neg (by decide), if_pos rfl]
      split
      · exact absurd rfl h
      · rfl
    rw [hunit, VarRef.read_eq_readPlain h]
    exact leads_plainName limits callers st r tasks rest

/-- Where the reading of a braced word gets to, of which `chars` were read before. -/
def afterBraced {text : List Char} (opening chars : List Char) (below : List Task) :
    Except (Option (List Char)) (Read text) → Machine
  | .ok word => reading (r.on (Task.hand (chars ++ word.value) below) word.rest) callers st
  | .error unclosed =>
    failing (.script (.unclosedBrace (positionOf r.text.length (unclosed.getD opening)))) callers st

theorem step_bracedUnit {c : Char} {opening chars rest : List Char} {below : List Task}
    (hclose : c ≠ '}') (hopen : c ≠ '{') :
    (r.on (.braced opening chars :: below) (c :: rest)).step =
      .go (r.on (.braced opening (chars ++ [(braceUnit c rest).1]) :: below)
        (braceUnit c rest).2) := by
  show Reader.bracedStep _ opening chars below (c :: rest) = _
  rw [Reader.bracedStep, if_neg hclose, if_neg hopen]
  rfl

theorem leads_braced (text : List Char) : ∀ (opening chars : List Char) (below : List Task),
    Leads limits (reading (r.on (.braced opening chars :: below) text) callers st)
      (afterBraced callers st r opening chars below (readBraced text)) := by
  fun_induction readBraced text with
  | case1 =>
      intro opening chars below
      exact .step (.refl _)
  | case2 rest =>
      intro opening chars below
      refine .step ?_
      rw [afterBraced, List.append_nil]
      exact .refl _
  | case3 rest unclosed herror _ ih =>
      intro opening chars below
      have hinner := ih ('{' :: rest) [] (.braced opening chars :: below)
      rw [herror] at hinner
      exact .step hinner
  | case4 rest inner hinner unclosed herror _ ih ih' =>
      intro opening chars below
      have hfirst := ih ('{' :: rest) [] (.braced opening chars :: below)
      have hrest := ih' opening (chars ++ '{' :: (inner.value ++ ['}'])) below
      rw [hinner] at hfirst
      rw [herror] at hrest
      exact .step (hfirst.trans hrest)
  | case5 rest inner hinner outer houter _ ih ih' =>
      intro opening chars below
      have hfirst := ih ('{' :: rest) [] (.braced opening chars :: below)
      have hrest := ih' opening (chars ++ '{' :: (inner.value ++ ['}'])) below
      rw [hinner] at hfirst
      rw [houter, afterBraced, List.append_assoc] at hrest
      exact .step (hfirst.trans hrest)
  | case6 c rest hclose hopen unclosed herror ih =>
      intro opening chars below
      have hrest := ih opening (chars ++ [(braceUnit c rest).1]) below
      rw [herror] at hrest
      exact .read (step_bracedUnit r hclose hopen) hrest
  | case7 c rest hclose hopen more hmore ih =>
      intro opening chars below
      have hrest := ih opening (chars ++ [(braceUnit c rest).1]) below
      rw [hmore, afterBraced, List.append_assoc] at hrest
      exact .read (step_bracedUnit r hclose hopen) hrest

end

/-! ## Routines that run commands -/

/-- What a scan gives the machine gets to, in `next` or failing. There are as many scopes then as
before. -/
def Arrives {whole after : List Char} (limits : Limits) (depth : Nat) (callers : List Caller)
    (m : Machine) (next : α → State Empty → List Char → Machine) :
    Scan Empty α whole after → Prop
  | .done value st rest _ => st.stack.depth = depth ∧ Leads limits m (next value st rest)
  | .failed fault st _ _ => Leads limits m (failing fault callers st)

/-- The machine runs commands as `d` dispatches them where `depth` scopes are live. -/
def Runs (limits : Limits) (depth : Nat) (d : Dispatcher Empty) : Prop :=
  ∀ (words : List String) (caller : Caller) (callers : List Caller) (st : State Empty),
    st.stack.depth = depth → (d words st).2.stack.depth = depth ∧
      Leads limits (call limits words caller callers st) (answer caller callers (d words st))

section

variable {limits : Limits} {depth : Nat} {callers : List Caller}

namespace Arrives

variable {whole after whole' after' : List Char} {m m' : Machine}

theorem from_later {next : α → State Empty → List Char → Machine}
    {s : Scan Empty α whole after} (h : Leads limits m m')
    (h' : Arrives limits depth callers m' next s) : Arrives limits depth callers m next s := by
  cases s with
  | done value st rest within => exact ⟨h'.1, h.trans h'.2⟩
  | failed fault st rest within => exact h.trans h'

theorem widen {next : α → State Empty → List Char → Machine} {s : Scan Empty α whole after}
    (h : Arrives limits depth callers m next s) (hwhole : whole <:+ whole')
    (hafter : after <:+ after') : Arrives limits depth callers m next (s.widen hwhole hafter) := by
  cases s <;> exact h

theorem map {next : β → State Empty → List Char → Machine} {s : Scan Empty α whole after}
    (f : α → β) (h : Arrives limits depth callers m (fun value => next (f value)) s) :
    Arrives limits depth callers m next (s.map f) := by
  cases s <;> exact h

theorem andThen {next : α → State Empty → List Char → Machine}
    {next' : β → State Empty → List Char → Machine} {s : Scan Empty α whole after}
    {f : α → State Empty → (rest : List Char) → rest <:+ after → Scan Empty β whole after'}
    (h : Arrives limits depth callers m next s)
    (h' : ∀ value st rest within, st.stack.depth = depth →
      Arrives limits depth callers (next value st rest) next' (f value st rest within)) :
    Arrives limits depth callers m next' (s.andThen f) := by
  cases s with
  | done value st rest within => exact from_later h.2 (h' value st rest within h.1)
  | failed fault st rest within => exact h

end Arrives

variable {d : Dispatcher Empty}

/-- Where the reading of a quoted word gets to, of which `chars` were read before. -/
def afterQuoted (r : Reader) (callers : List Caller) (opening chars : List Char)
    (below : List Task) (word : Option (List Char)) (st : State Empty) (rest : List Char) :
    Machine :=
  match word with
  | some more => reading (r.on (Task.hand (chars ++ more) below) rest) callers st
  | none =>
    failing (.script (.unclosedQuote (positionOf r.text.length opening))) callers st

theorem afterQuoted_append (r : Reader) (opening chars first : List Char) (below : List Task) :
    afterQuoted r callers opening (chars ++ first) below =
      fun word => afterQuoted r callers opening chars below (word.map (first ++ ·)) := by
  funext word st rest
  cases word with
  | none => rfl
  | some more => simp only [afterQuoted, Option.map_some, List.append_assoc]

mutual

theorem scanWords_arrives (hd : Runs limits depth d) (src : Source) (r : Reader) (embedded : Bool)
    (words : List String) (below : List Task) {st : State Empty} (hst : st.stack.depth = depth)
    (text : List Char) (plain : src.Plain r.text.length text) :
    Arrives limits depth callers
      (reading (r.on (.command embedded words :: below) text) callers st)
      (fun more st' rest => perform limits (words ++ more) (r.on below rest) callers st')
      (scanWords d src embedded st text) := by
  match text with
  | [] =>
      rw [scanWords]
      refine ⟨hst, .step ?_⟩
      simp only [List.append_nil]
      exact .refl _
  | c :: rest =>
      have plain' := plain.suffix (List.suffix_cons c rest)
      -- what follows a word, whichever way the word was read
      have following : ∀ (word : List Char) (st' : State Empty) (rest' : List Char)
          (h : rest' <:+ rest), st'.stack.depth = depth →
          Arrives limits depth callers
            (reading (r.on (.command embedded (words ++ [String.ofList word]) :: below) rest')
              callers st')
            (fun more st' rest => perform limits (words ++ more) (r.on below rest) callers st')
            (((scanWords d src embedded st' rest').widen (h.trans (List.suffix_cons c rest))
              ((List.tail_suffix rest').trans h)).map (String.ofList word :: ·)) := by
        intro word st' rest' h hst'
        have hwords := scanWords_arrives hd src r embedded (words ++ [String.ofList word]) below
          hst' rest' (plain'.suffix h)
        simp only [List.append_assoc, List.singleton_append] at hwords
        exact (hwords.widen _ _).map _
      refine .from_later (.step (.refl _)) ?_
      show Arrives limits depth callers (act limits callers st
        (Reader.commandStep _ embedded words below (c :: rest))) _ _
      rw [scanWords]
      simp only [Reader.commandStep]
      by_cases hend : c = ';' ∨ c = '\n' ∨ (embedded = true ∧ c = ']')
      · simp only [if_pos hend]
        refine ⟨hst, ?_⟩
        simp only [List.append_nil]
        exact .refl _
      by_cases hblank : isBlank c = true
      · simp only [if_neg hend, if_pos hblank]
        exact (scanWords_arrives hd src r embedded words below hst rest plain').widen _ _
      by_cases hquote : c = '"'
      · simp only [if_neg hend, if_neg hblank, if_pos hquote]
        refine .andThen ((scanQuoted_arrives hd src r (c :: rest) []
          (.command embedded words :: below) hst rest plain').widen _ _) ?_
        intro word st' rest' h hst'
        cases word with
        | none =>
            simp only [Arrives, afterQuoted, plain.position_eq]
            exact .refl _
        | some word => exact following word st' rest' h hst'
      by_cases hbrace : c = '{'
      · simp only [if_neg hend, if_neg hblank, if_neg hquote, if_pos hbrace]
        refine .from_later (leads_braced limits callers st r rest (c :: rest) []
          (.command embedded words :: below)) ?_
        cases readBraced rest with
        | error unclosed =>
            simp only [Arrives, afterBraced, plain.position_eq]
            exact .refl _
        | ok word => exact following word.value st word.rest word.within hst
      · simp only [if_neg hend, if_neg hblank, if_neg hquote, if_neg hbrace]
        refine .andThen (scanUnit_arrives hd src r (.bare embedded [])
          (.command embedded words :: below) hst c rest plain) ?_
        intro first st' rest' h hst'
        refine .andThen ((scanBare_arrives hd src r embedded first
          (.command embedded words :: below) hst' rest' (plain'.suffix h)).widen _ _) ?_
        intro more st'' rest'' h' hst''
        exact following (first ++ more) st'' rest'' h' hst''
termination_by 4 * text.length + 2
decreasing_by
  · have := h.length_le
    simp only [List.length_cons]
    omega
  · simp only [List.length_cons]
    omega
  · simp only [List.length_cons]
    omega
  · simp only [List.length_cons]
    omega
  · have := h.length_le
    simp only [List.length_cons]
    omega

theorem scanBare_arrives (hd : Runs limits depth d) (src : Source) (r : Reader) (embedded : Bool)
    (chars : List Char) (below : List Task) {st : State Empty} (hst : st.stack.depth = depth)
    (text : List Char) (plain : src.Plain r.text.length text) :
    Arrives limits depth callers (reading (r.on (.bare embedded chars :: below) text) callers st)
      (fun more st' rest => reading (r.on (Task.hand (chars ++ more) below) rest) callers st')
      (scanBare d src embedded st text) := by
  match text with
  | [] =>
      rw [scanBare]
      refine ⟨hst, .step ?_⟩
      simp only [List.append_nil]
      exact .refl _
  | c :: rest =>
      have plain' := plain.suffix (List.suffix_cons c rest)
      refine .from_later (.step (.refl _)) ?_
      show Arrives limits depth callers (act limits callers st
        (Reader.bareStep _ embedded chars below (c :: rest))) _ _
      rw [scanBare, Reader.bareStep]
      by_cases hend : isBlank c ∨ c = ';' ∨ (embedded = true ∧ c = ']')
      · simp only [if_pos hend]
        refine ⟨hst, ?_⟩
        simp only [List.append_nil]
        exact .refl _
      · simp only [if_neg hend]
        refine .andThen (scanUnit_arrives hd src r (.bare embedded chars) below hst c rest plain) ?_
        intro first st' rest' h hst'
        have hmore := scanBare_arrives hd src r embedded (chars ++ first) below hst' rest'
          (plain'.suffix h)
        simp only [List.append_assoc] at hmore
        exact (hmore.widen _ _).map _
termination_by 4 * text.length + 1
decreasing_by
  · simp only [List.length_cons]
    omega
  · have := h.length_le
    simp only [List.length_cons]
    omega

theorem scanQuoted_arrives (hd : Runs limits depth d) (src : Source) (r : Reader)
    (opening chars : List Char) (below : List Task) {st : State Empty}
    (hst : st.stack.depth = depth) (text : List Char) (plain : src.Plain r.text.length text) :
    Arrives limits depth callers (reading (r.on (.quoted opening chars :: below) text) callers st)
      (afterQuoted r callers opening chars below) (scanQuoted d src st text) := by
  match text with
  | [] =>
      rw [scanQuoted]
      exact ⟨hst, .step (.refl _)⟩
  | c :: rest =>
      have plain' := plain.suffix (List.suffix_cons c rest)
      refine .from_later (.step (.refl _)) ?_
      show Arrives limits depth callers (act limits callers st
        (Reader.quotedStep _ opening chars below (c :: rest))) _ _
      rw [scanQuoted, Reader.quotedStep]
      by_cases hend : c = '"'
      · simp only [if_pos hend]
        refine ⟨hst, ?_⟩
        simp only [afterQuoted, List.append_nil]
        exact .refl _
      · simp only [if_neg hend]
        refine .andThen (scanUnit_arrives hd src r (.quoted opening chars) below hst c rest plain) ?_
        intro first st' rest' h hst'
        have hmore := scanQuoted_arrives hd src r opening (chars ++ first) below hst' rest'
          (plain'.suffix h)
        rw [afterQuoted_append] at hmore
        exact (hmore.widen _ _).map _
termination_by 4 * text.length + 1
decreasing_by
  · simp only [List.length_cons]
    omega
  · have := h.length_le
    simp only [List.length_cons]
    omega

theorem scanUnit_arrives (hd : Runs limits depth d) (src : Source) (r : Reader) (task : Task)
    (below : List Task) {st : State Empty} (hst : st.stack.depth = depth) (c : Char)
    (rest : List Char) (plain : src.Plain r.text.length (c :: rest)) :
    Arrives limits depth callers (act limits callers st (r.unitStep (task :: below) c rest))
      (fun more st' rest' => reading (r.on (Task.hand more (task :: below)) rest') callers st')
      (scanUnit d src st c rest) := by
  have plain' := plain.suffix (List.suffix_cons c rest)
  rw [scanUnit]
  by_cases hescape : c = '\\'
  · unfold Reader.unitStep
    simp only [if_pos hescape]
    cases readEscape rest with
    | error refused =>
        simp only [Arrives, act, plain.position_eq]
        exact .refl _
    | ok escape => exact ⟨hst, .refl _⟩
  by_cases hvariable : c = '$'
  · subst hvariable
    simp only [if_neg hescape]
    refine .from_later (leads_variable limits callers st r (task :: below) rest) ?_
    simp only [if_true, act]
    rw [plain'.nameOf_eq rest List.suffix_rfl]
    cases st.lookup (VarRef.read rest).name with
    | ok text => exact ⟨hst, .refl _⟩
    | error fault => exact .refl _
  by_cases hcommand : c = '['
  · unfold Reader.unitStep
    simp only [if_neg hescape, if_neg hvariable, if_pos hcommand]
    exact (scanEmbedded_arrives hd src r task below hst rest plain').widen _ _
  · unfold Reader.unitStep
    simp only [if_neg hescape, if_neg hvariable, if_neg hcommand]
    exact ⟨hst, .refl _⟩
termination_by 4 * rest.length + 4

theorem scanEmbedded_arrives (hd : Runs limits depth d) (src : Source) (r : Reader) (task : Task)
    (below : List Task) {st : State Empty} (hst : st.stack.depth = depth) (text : List Char)
    (plain : src.Plain r.text.length text) :
    Arrives limits depth callers
      (reading (r.on (.layout true :: task :: below) text) callers st)
      (fun more st' rest' => reading (r.on (Task.hand more (task :: below)) rest') callers st')
      (scanEmbedded d src st text) := by
  rw [scanEmbedded]
  refine .from_later (leads_layout limits callers st r (task :: below) true text) ?_
  refine .andThen ((scanWords_arrives hd src r true [] (task :: below) hst (skipLayout text)
    (plain.suffix (skipLayout_suffix text))).widen _ _) ?_
  intro words st' rest h hst'
  rw [List.nil_append, perform]
  split
  · exact ⟨hst', .refl _⟩
  · obtain ⟨hdepth, hcall⟩ := hd words ⟨r.on (task :: below) rest, st'.pendingReturn⟩ callers
      { st' with pendingReturn := false } hst'
    refine .from_later hcall ?_
    generalize d words { st' with pendingReturn := false } = o at hdepth
    rcases o with ⟨fault | completion, st''⟩
    · exact .refl _
    · exact ⟨hdepth, .refl _⟩
termination_by 4 * text.length + 3
decreasing_by
  have := (skipLayout_suffix text).length_le
  omega

end

theorem runScript_arrives (hd : Runs limits depth d) (src : Source) (r : Reader)
    {st : State Empty} (hst : st.stack.depth = depth) (text : List Char)
    (plain : src.Plain r.text.length text) :
    Arrives limits depth callers (reading (r.on [] text) callers st)
      (fun completion st' _ => ending completion callers st') (runScript d src r.last st text) := by
  match text with
  | [] =>
      rw [runScript]
      exact ⟨hst, .step (.refl _)⟩
  | c :: rest =>
      rw [runScript]
      refine .from_later (.step (leads_layout limits callers st r [] false (c :: rest))) ?_
      refine .andThen ((scanWords_arrives hd src r false [] [] hst (skipLayout (c :: rest))
        (plain.suffix (skipLayout_suffix _))).widen _ _) ?_
      intro words st' rest' h hst'
      have within : rest' <:+ c :: rest := h.trans (List.suffix_cons c rest)
      rw [List.nil_append, perform]
      split
      · have hclear : { st' with pendingReturn := false }.stack.depth = depth := hst'
        exact (runScript_arrives hd src r hclear rest' (plain.suffix within)).widen _ _
      · obtain ⟨hdepth, hcall⟩ := hd words ⟨r.on [] rest', st'.pendingReturn⟩ callers
          { st' with pendingReturn := false } hst'
        refine .from_later hcall ?_
        generalize d words { st' with pendingReturn := false } = o at hdepth
        rcases o with ⟨fault | completion, st''⟩
        · exact .refl _
        · simp only [answer, deliver, Reader.on, List.isEmpty_nil, if_true]
          split
          · exact ⟨hdepth, .refl _⟩
          · exact (runScript_arrives hd src { r with last := completion } hdepth rest'
              (plain.suffix within)).widen _ _
termination_by text.length
decreasing_by
  all_goals
    have := h.length_le
    simp only [List.length_cons, List.tail_cons] at *
    omega

/-- The end of a script, or the fault that ends it. -/
def afterScript (callers : List Caller) : Outcome Empty Completion → Machine
  | (.ok completion, st) => ending completion callers st
  | (.error fault, st) => failing fault callers st

theorem Arrives.ends {whole after : List Char} {m : Machine} {s : Scan Empty Completion whole after}
    (h : Arrives limits depth callers m
      (fun completion st _ => ending completion callers st) s) :
    Leads limits m (afterScript callers (s.outcome, s.state)) := by
  cases s with
  | done completion st rest within => exact h.2
  | failed fault st rest within => exact h

theorem leads_script (hd : Runs limits depth d) (script : String) (callers : List Caller)
    {st : State Empty} (hst : st.stack.depth = depth) :
    Leads limits (reading (.start script) callers st)
      (afterScript callers (evaluateScript d script st)) :=
  (runScript_arrives hd (.ofText script.toList) (.start script) hst script.toList
    (Source.plain_ofText _)).ends

/-! ## Dispatch -/

theorem invoke_leads (env : Env Empty) (renewed : Evaluator Empty)
    (hd : Runs env.limits (depth + 1) d) (handler : Handler Empty) (args : List String)
    (caller : Caller) (callers : List Caller) {st : State Empty} (hst : st.stack.depth = depth) :
    Leads env.limits (invoke args caller callers st.inside handler)
      (answer caller callers (callHandler env d renewed handler args st)) := by
  rw [callHandler_eq]
  cases handler with
  | builtin b =>
      rw [Handler.run_builtin, invoke]
      rcases b.run args st.inside with ⟨fault | text, st'⟩
      · exact .refl _
      · exact .refl _
  | procedure p =>
      let bound : State Empty :=
        { st.inside with stack := st.inside.stack.bind p.params args }
      have hbound : bound.stack.depth = depth + 1 :=
        (ScopeStack.depth_bind ..).trans (congrArg (· + 1) hst)
      rw [Handler.run_procedure, invoke]
      refine (leads_script hd p.body (caller :: callers) hbound).trans ?_
      -- the body has ended, and one step takes its scope away
      rcases evaluateScript d p.body bound with ⟨fault | completion, st'⟩
      · exact .step (.refl _)
      · exact .step (.refl _)
  | host h => exact h.elim

theorem enter_leads (env : Env Empty) (renewed : Evaluator Empty)
    (inner : Option (Dispatcher Empty)) (hnone : inner = none → env.limits.maxDepth ≤ depth)
    (hsome : ∀ d, inner = some d →
      ¬ env.limits.maxDepth ≤ depth ∧ Runs env.limits (depth + 1) d)
    (words : List String) (caller : Caller) (callers : List Caller) {st : State Empty}
    (hst : st.stack.depth = depth) :
    Leads env.limits (call env.limits words caller callers st)
      (answer caller callers (enter env renewed inner words st)) := by
  subst hst
  cases words with
  | nil => exact .refl _
  | cons name args =>
      rw [enter_cons, call]
      cases st.commands.find? name with
      | none => exact .refl _
      | some handler =>
          dsimp only
          by_cases hlimit : st.counted.commandCount > env.limits.maxCommands
          · simp only [if_pos hlimit]
            exact .refl _
          simp only [if_neg hlimit]
          cases inner with
          | none =>
              rw [if_pos (hnone rfl)]
              exact .refl _
          | some d =>
              obtain ⟨hroom, hd⟩ := hsome d rfl
              rw [if_neg hroom]
              exact invoke_leads env renewed hd handler args caller callers rfl

theorem dispatchWith_runs (env : Env Empty) (renewed : Evaluator Empty) (room : Nat) :
    ∀ {depth : Nat}, env.limits.room depth = room →
      Runs env.limits depth (dispatchWith env renewed room) := by
  induction room with
  | zero =>
      intro depth hroom words caller callers st hst
      refine ⟨(dispatchWith_balanced env renewed 0 words st).trans hst, ?_⟩
      have hfull : env.limits.maxDepth ≤ depth := by
        simp only [Limits.room] at hroom
        omega
      exact enter_leads env renewed none (fun _ => hfull) (by simp) words caller callers hst
  | succ room ih =>
      intro depth hroom words caller callers st hst
      refine ⟨(dispatchWith_balanced env renewed _ words st).trans hst, ?_⟩
      have hfree : ¬ env.limits.maxDepth ≤ depth := by
        simp only [Limits.room] at hroom
        omega
      refine enter_leads env renewed (some _) (by simp) ?_ words caller callers hst
      rintro _ ⟨⟩
      exact ⟨hfree, ih (Limits.room_succ hroom)⟩

end

/-! ## Whole evaluations -/

/-- The machine halts with what evaluation gives. -/
theorem start_leads (env : Env Empty) (script : String) (st : State Empty) :
    Leads env.limits (start script st)
      (halted (env.evaluateScript script { st with pendingReturn := false })) := by
  let clear : State Empty := { st with pendingReturn := false }
  have hd : Runs env.limits clear.stack.depth (env.entry clear) := by
    rw [env.entry_eq]
    exact dispatchWith_runs env env.afresh _ rfl
  refine (leads_script hd script [] rfl).trans ?_
  rw [Env.evaluateScript]
  rcases evaluateScript (env.entry clear) script clear with ⟨fault | completion, st'⟩
  · exact .step (.refl _)
  · exact .step (.refl _)

theorem start_inText (limits : Limits) (script : String) (st : State Empty) (n : Nat) :
    ((start script st).run limits n).InText := by
  refine run_invariant Move.inText n ?_
  intro r hr
  rw [List.mem_singleton.1 hr]
  exact List.suffix_rfl

end Machine

/-! ## Counted commands -/

variable {H : Type}

def Event.isCount : Event H → Bool
  | count => true
  | _ => false

theorem Step.commandCount {st : State H} {m : Moment H} (step : Step st m) :
    m.state.commandCount = st.commandCount + if m.event.isCount then 1 else 0 := by
  cases step with
  | write text =>
      obtain ⟨stream, output, heq⟩ := st.write_eq text
      rw [heq]
      rfl
  | _ => rfl

/-- Every command that a run counts is told by its trace. -/
theorem Path.commandCount {s t : State H} {trace : List (Moment H)} (path : Path s trace t) :
    t.commandCount = s.commandCount + trace.countP (·.event.isCount) := by
  induction path with
  | nil => rfl
  | cons step _ ih =>
      rw [ih, step.commandCount, List.countP_cons]
      omega

theorem Env.commandCount_evaluate_le (env : Env Empty) (script : String) (st : State Empty) :
    (env.evaluate script st).2.commandCount ≤
      st.commandCount + (env.limits.maxCommands - st.commandCount).toNat + 1 := by
  let most := st.commandCount + (env.limits.maxCommands - st.commandCount).toNat
  have hmost : env.limits.maxCommands ≤ most := by omega
  obtain ⟨n, hhalt⟩ := Machine.start_leads env script st
  have hcount := Machine.run_invariant (Machine.Move.countsAtMost hmost) n
    (show (Machine.start script st).CountsAtMost most from Nat.le_add_right ..)
  rw [hhalt] at hcount
  rw [env.evaluate_eq, Outcome.snd_map]
  exact hcount

/-- **Evaluation terminates.** The machine, which knows no bound but the two limits, halts on every
script with the value or the fault of its evaluation. It counts at most one command more than the
limit still allows. What is left of a text is always an end of it; whatever the text, each step of
reading takes characters away or goes over to less that can be done without taking any. With the
commands that may still be counted in front, every step of the machine leaves less to do. -/
theorem evaluation_terminates (env : Env Empty) (script : String) (st : State Empty) :
    (∃ n outcome, (Machine.start script st).run env.limits n = .halted outcome ∧
      env.evaluate script st = Outcome.map Completion.value outcome) ∧
    (Path st (env.traceEvaluate script st) (env.evaluate script st).2 ∧
      (env.traceEvaluate script st).countP (·.event.isCount) ≤
        (env.limits.maxCommands - st.commandCount).toNat + 1) ∧
    (∀ n, ((Machine.start script st).run env.limits n).InText) ∧
    (∀ r : Reader, r.step.Ahead r) ∧
    ∀ m : Machine, m.isHalted = false →
      Prod.Lex (· < ·) (· < ·) ((m.step env.limits).measure env.limits)
        (m.measure env.limits) := by
  refine ⟨?_, ⟨?_, ?_⟩, ?_, ?_, ?_⟩
  · obtain ⟨n, hhalt⟩ := Machine.start_leads env script st
    exact ⟨n, _, hhalt, env.evaluate_eq script st⟩
  · exact env.traceEvaluate_path script st
  · have hcount := (env.traceEvaluate_path script st).commandCount
    have hle := env.commandCount_evaluate_le script st
    omega
  · exact Machine.start_inText env.limits script st
  · exact Reader.step_ahead
  · exact fun m => (Machine.step_moves env.limits m).decreases

/-- A procedure that calls itself, where five commands are allowed. -/
example :
    let env : Env Empty := { limits := { maxCommands := 5 }, host := nofun, fresh := {} }
    (env.evaluate "proc f x f; f" { commands := Builtin.table }).2.commandCount = 6 := by
  decide +kernel

end EmbeddedTcl
