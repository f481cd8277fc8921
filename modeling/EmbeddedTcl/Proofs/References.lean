import EmbeddedTcl.Proofs.ProcedureCall
import EmbeddedTcl.Proofs.Scoping

/-!
# References to variables

What follows a dollar sign is described here by what it looks like, and not by how it is read: by
the first closing brace, or by the longest runs of characters that may stand in a name and in an
index. Every text has exactly one such description, and it is what a reference is read as.

A variable can also be asked for by a command, which runs in a scope of its own and looks at the
scope of its caller. In a state that scripts can lead to, this finds what a reference finds, also
through a link: links go to the global scope, whose number is the same from everywhere.
-/

namespace EmbeddedTcl

variable {H : Type}

/-! ## Runs of characters -/

/-- An ASCII letter, an ASCII digit or an underscore. -/
def InWord (c : Char) : Prop :=
  ('A' ≤ c ∧ c ≤ 'Z') ∨ ('a' ≤ c ∧ c ≤ 'z') ∨ ('0' ≤ c ∧ c ≤ '9') ∨ c = '_'

def InName (c : Char) : Prop :=
  InWord c ∨ c = ':'

def InIndex (c : Char) : Prop :=
  InWord c ∨ c = ','

/-- The longest run of characters of a kind that a text begins with, and what follows it. -/
structure LongestRun (P : Char → Prop) (text run rest : List Char) : Prop where
  split : text = run ++ rest
  inside : ∀ c ∈ run, P c
  longest : ∀ front, front <+: text → (∀ c ∈ front, P c) → front.length ≤ run.length

theorem inWord_iff (c : Char) : (c.isAlphanum || c == '_') = true ↔ InWord c := by
  have hupper : c.isUpper = true ↔ 'A' ≤ c ∧ c ≤ 'Z' := decide_eq_true_iff
  have hlower : c.isLower = true ↔ 'a' ≤ c ∧ c ≤ 'z' :=
    Bool.and_eq_true_iff.trans (and_congr decide_eq_true_iff decide_eq_true_iff)
  have hdigit : c.isDigit = true ↔ '0' ≤ c ∧ c ≤ '9' :=
    Bool.and_eq_true_iff.trans (and_congr decide_eq_true_iff decide_eq_true_iff)
  have hsplit : c.isAlphanum = (c.isUpper || c.isLower || c.isDigit) := rfl
  rw [hsplit, InWord, Bool.or_eq_true, Bool.or_eq_true, Bool.or_eq_true, hupper, hlower, hdigit,
    beq_iff_eq, or_assoc, or_assoc]

theorem isNameChar_iff (c : Char) : isNameChar c = true ↔ InName c := by
  rw [isNameChar, InName, ← inWord_iff, Bool.or_eq_true, beq_iff_eq]

theorem isIndexChar_iff (c : Char) : isIndexChar c = true ↔ InIndex c := by
  rw [isIndexChar, InIndex, ← inWord_iff, Bool.or_eq_true, beq_iff_eq]

section

variable {P : Char → Prop} {text run rest : List Char}

/-- A run goes on for as long as it can. -/
theorem LongestRun.stops (h : LongestRun P text run rest) : ∀ c ∈ rest.head?, ¬ P c := by
  intro c hc hP
  obtain ⟨more, rfl⟩ := List.head?_eq_some_iff.1 hc
  have hlonger : run ++ [c] <+: text := ⟨more, by rw [h.split, List.append_assoc]; rfl⟩
  have hinside : ∀ d ∈ run ++ [c], P d := by
    simpa [or_imp, forall_and] using ⟨h.inside, hP⟩
  have hlength := h.longest (run ++ [c]) hlonger hinside
  simp only [List.length_append, List.length_singleton] at hlength
  omega

theorem LongestRun.of_stops (hinside : ∀ c ∈ run, P c) (hstops : ∀ c ∈ rest.head?, ¬ P c) :
    LongestRun P (run ++ rest) run rest where
  split := rfl
  inside := hinside
  longest := by
    intro front hfront hP
    refine Nat.le_of_not_lt fun hlt => ?_
    -- a longer run would take in the character that follows this one
    obtain ⟨more, rfl⟩ : run <+: front :=
      List.prefix_of_prefix_length_le (List.prefix_append run rest) hfront (Nat.le_of_lt hlt)
    obtain ⟨c, more, rfl⟩ : ∃ c more', more = c :: more' := by
      cases more with
      | nil => simp at hlt
      | cons c more => exact ⟨c, more, rfl⟩
    obtain ⟨back, hback⟩ := (List.prefix_append_right_inj run).1 hfront
    refine hstops c ?_ (hP c (by simp))
    rw [← hback]
    rfl

variable {p : Char → Bool} (hp : ∀ c, p c = true ↔ P c)

include hp

theorem longestRun_span (text : List Char) :
    LongestRun P text (text.takeWhile p) (text.dropWhile p) := by
  have hinside : ∀ c ∈ text.takeWhile p, P c := fun c hc =>
    (hp c).1 (List.all_eq_true.1 List.all_takeWhile c hc)
  have hstops : ∀ c ∈ (text.dropWhile p).head?, ¬ P c := by
    intro c hc hP
    have hnot := List.head?_dropWhile_not p text
    rw [hc] at hnot
    simp [(hp c).2 hP] at hnot
  have hrun := LongestRun.of_stops hinside hstops
  rwa [List.takeWhile_append_dropWhile] at hrun

theorem LongestRun.span_eq (h : LongestRun P text run rest) :
    text.takeWhile p = run ∧ text.dropWhile p = rest := by
  have hinside : ∀ c ∈ run, p c = true := fun c hc => (hp c).2 (h.inside c hc)
  have hstop : rest.takeWhile p = [] ∧ rest.dropWhile p = rest := by
    cases rest with
    | nil => exact ⟨rfl, rfl⟩
    | cons c rest =>
        have hc : ¬ p c = true := fun hc => h.stops c rfl ((hp c).1 hc)
        exact ⟨List.takeWhile_cons_of_neg hc, List.dropWhile_cons_of_neg hc⟩
  rw [h.split, List.takeWhile_append_of_pos hinside, List.dropWhile_append_of_pos hinside,
    hstop.1, hstop.2, List.append_nil]
  exact ⟨rfl, rfl⟩

end

theorem ne_brace_iff (c : Char) : (c != '}') = true ↔ c ≠ '}' :=
  bne_iff_ne

/-! ## What a reference looks like -/

namespace VarRef

/-- A text after a dollar sign, the name that it begins with and what is left of it. A name in
braces goes to the first closing brace, or to the end. Another name is as long as can be; if an
opening parenthesis follows, there is an index, which is as long as can be, too. The character after
an index is left out of the name unless it is a closing parenthesis, and is gone in any case. -/
inductive Scanned : (text name rest : List Char) → Prop where
  | braced {name rest : List Char} (first : '}' ∉ name) :
      Scanned ('{' :: (name ++ '}' :: rest)) name rest
  | unclosed {name : List Char} (never : '}' ∉ name) : Scanned ('{' :: name) name []
  | plain {text name rest : List Char} (bare : text.head? ≠ some '{')
      (run : LongestRun InName text name rest) (next : rest.head? ≠ some '(') :
      Scanned text name rest
  | indexed {text base inner index rest : List Char} (bare : text.head? ≠ some '{')
      (run : LongestRun InName text base ('(' :: inner))
      (inside : LongestRun InIndex inner index (')' :: rest)) :
      Scanned text (base ++ '(' :: (index ++ [')'])) rest
  | cut {text base inner index rest : List Char} (bare : text.head? ≠ some '{')
      (run : LongestRun InName text base ('(' :: inner))
      (inside : LongestRun InIndex inner index rest) (next : rest.head? ≠ some ')') :
      Scanned text (base ++ '(' :: index) (rest.drop 1)

theorem readPlain_indexed {text inner : List Char}
    (h : text.dropWhile isNameChar = '(' :: inner) :
    (readPlain text).base = text.takeWhile isNameChar ∧
      (readPlain text).index = (readIndex [] inner).index ∧
      (readPlain text).rest = (readIndex [] inner).rest := by
  fun_cases readPlain text with
  | case1 base rest heq r =>
      obtain rfl : rest = inner := (List.cons.inj (heq.symm.trans h)).2
      exact ⟨rfl, rfl, rfl⟩
  | case2 base hne => exact absurd h (hne inner)

theorem readPlain_bare {text : List Char} (h : (text.dropWhile isNameChar).head? ≠ some '(') :
    (readPlain text).base = text.takeWhile isNameChar ∧ (readPlain text).index = [] ∧
      (readPlain text).rest = text.dropWhile isNameChar := by
  fun_cases readPlain text with
  | case1 base rest heq r =>
      rw [heq] at h
      exact absurd rfl h
  | case2 base hne => exact ⟨rfl, rfl, rfl⟩

theorem scanned_readBraced (inner : List Char) :
    Scanned ('{' :: inner) (readBraced inner).base (readBraced inner).rest := by
  have hrun := longestRun_span ne_brace_iff inner
  have hfirst : '}' ∉ inner.takeWhile (· != '}') := fun hmem => hrun.inside _ hmem rfl
  have hsplit := hrun.split
  simp only [readBraced]
  cases hrest : inner.dropWhile (· != '}') with
  | nil =>
      rw [hrest, List.append_nil] at hsplit
      rw [← hsplit] at hfirst ⊢
      exact .unclosed hfirst
  | cons c rest =>
      -- a run of other characters stops at a closing brace and at nothing else
      rw [hrest] at hsplit hrun
      obtain rfl : c = '}' := Decidable.not_not.1 (hrun.stops c rfl)
      conv => arg 1; rw [hsplit]
      exact .braced hfirst

theorem scanned_readPlain {text : List Char} (bare : text.head? ≠ some '{') :
    Scanned text ((readPlain text).base ++ (readPlain text).index) (readPlain text).rest := by
  have hrun := longestRun_span isNameChar_iff text
  by_cases hindex : (text.dropWhile isNameChar).head? = some '('
  · obtain ⟨inner, hinner⟩ := List.head?_eq_some_iff.1 hindex
    have hinside := longestRun_span isIndexChar_iff inner
    obtain ⟨hbase, hread, hrest⟩ := readPlain_indexed hinner
    rw [hinner] at hrun
    rw [hbase, hread, hrest]
    simp only [readIndex]
    split
    · rename_i hclosed
      obtain ⟨rest, hclosed⟩ := List.head?_eq_some_iff.1 hclosed
      rw [hclosed] at hinside ⊢
      exact .indexed bare hrun hinside
    · rename_i hcut
      rw [List.append_nil]
      exact .cut bare hrun hinside hcut
  · obtain ⟨hbase, hread, hrest⟩ := readPlain_bare hindex
    rw [hbase, hread, hrest, List.append_nil]
    exact .plain bare hrun hindex

/-- Every text has a description: what is read fits one. -/
theorem scanned_read (text : List Char) :
    Scanned text ((read text).base ++ (read text).index) (read text).rest := by
  by_cases hbrace : text.head? = some '{'
  · obtain ⟨inner, rfl⟩ := List.head?_eq_some_iff.1 hbrace
    show Scanned _ ((readBraced inner).base ++ []) (readBraced inner).rest
    rw [List.append_nil]
    exact scanned_readBraced inner
  · rw [read_eq_readPlain hbrace]
    exact scanned_readPlain hbrace

/-- A text has one description at most: what fits it is what is read. -/
theorem Scanned.read_eq {text name rest : List Char} (h : Scanned text name rest) :
    (read text).name = String.ofList name ∧ (read text).rest = rest := by
  cases h with
  | braced first =>
      have hrun : LongestRun (· ≠ '}') (name ++ '}' :: rest) name ('}' :: rest) :=
        .of_stops (fun c hc heq => first (heq ▸ hc)) (by simp)
      obtain ⟨hname, hrest⟩ := hrun.span_eq ne_brace_iff
      simp only [read, readBraced, VarRef.name, hname, hrest, List.append_nil, List.drop_one,
        List.tail_cons, and_self]
  | unclosed never =>
      have hrun : LongestRun (· ≠ '}') (name ++ []) name [] :=
        .of_stops (fun c hc heq => never (heq ▸ hc)) (by simp)
      rw [List.append_nil] at hrun
      obtain ⟨hname, hrest⟩ := hrun.span_eq ne_brace_iff
      simp only [read, readBraced, VarRef.name, hname, hrest, List.append_nil, List.drop_nil,
        and_self]
  | plain bare run next =>
      obtain ⟨hname, hrest⟩ := run.span_eq isNameChar_iff
      rw [← hrest] at next
      obtain ⟨hbase, hindex, hleft⟩ := readPlain_bare next
      rw [read_eq_readPlain bare, VarRef.name, hbase, hindex, hleft, hname, hrest, List.append_nil]
      exact ⟨rfl, rfl⟩
  | indexed bare run inside =>
      obtain ⟨hname, hrest⟩ := run.span_eq isNameChar_iff
      obtain ⟨hindex, hafter⟩ := inside.span_eq isIndexChar_iff
      obtain ⟨hbase, hread, hleft⟩ := readPlain_indexed hrest
      rw [read_eq_readPlain bare, VarRef.name, hbase, hread, hleft, hname]
      simp [readIndex, hindex, hafter]
  | cut bare run inside next =>
      obtain ⟨hname, hrest⟩ := run.span_eq isNameChar_iff
      obtain ⟨hindex, hafter⟩ := inside.span_eq isIndexChar_iff
      obtain ⟨hbase, hread, hleft⟩ := readPlain_indexed hrest
      rw [read_eq_readPlain bare, VarRef.name, hbase, hread, hleft, hname]
      simp [readIndex, hindex, hafter, next]

end VarRef

/-! ## Reading a reference at a position -/

/-- A reference is read as what it looks like, wherever it stands. -/
theorem Cursor.readVariable_scanned {r name rest : List Char} (h : VarRef.Scanned r name rest)
    (front : List Char) :
    let text := front ++ '$' :: r
    Cursor.readVariable ⟨text, front.length⟩ =
      (.ok (String.ofList name), ⟨text, text.length - rest.length⟩) := by
  intro text
  obtain ⟨hname, hrest⟩ := h.read_eq
  have hdrop : text.drop (front.length + 1) = r := by simp [text, List.drop_append]
  have hview : (⟨text, front.length⟩ : Cursor).view? ((front.length : Int) + 1) = some r := by
    rw [Cursor.view?, if_pos (by omega), ← hdrop]
    rfl
  have hsuffix : r <:+ text := hdrop ▸ List.drop_suffix _ text
  have hcut := Cursor.nameAt_read ⟨text, front.length⟩ hsuffix
  simp only [Cursor.readVariable, hview, hcut, hname, hrest]
  rfl

/-- The substitution of a reference looks its variable up and does nothing else. -/
theorem scanUnit_scanned (d : Dispatcher H) {src : Source} {size : Nat} {st : State H}
    {text name rest : List Char} (h : VarRef.Scanned text name rest)
    (plain : src.Plain size ('$' :: text)) :
    (scanUnit d src st '$' text).result =
      ((st.lookup (String.ofList name)).map fun value => (value.toList, rest), st) := by
  obtain ⟨hname, rfl⟩ := h.read_eq
  rw [scanUnit_result d src size st '$' text plain, parseUnit, if_neg (by decide), if_pos rfl,
    Parse.run, Piece.eval, hname]
  cases st.lookup (String.ofList name) <;> rfl

/-! ## Asking for a variable by a command -/

/-- The state after a command was run that changes nothing itself. -/
def State.ran (st : State H) (name : String) (args : List String) : State H :=
  { st with
    commandCount := st.commandCount + 1
    returnFlag := false
    log := .dispatching name args st.stack.depth :: st.log }

/-- The command that asks for a variable finds what its caller sees. -/
theorem Env.dispatch_get (env : Env H) {st : State H} {name : String}
    (hfind : st.commands.find? name = some (.builtin .set)) (hscoped : st.stack.Scoped)
    (hcount : (st.commandCount : Int) + 1 ≤ env.limits.maxCommands)
    (hdepth : st.stack.depth < env.limits.maxDepth) (v : String) :
    env.dispatch [name, v] st = ((st.lookup v).map (⟨·, false⟩), st.ran name [v]) := by
  let inside := (st.counted.note (.dispatching name [v] st.stack.depth)).inside
  have hcaller : inside.stack.get inside.stack.caller v = st.lookup v :=
    hscoped.get_push st.stack.top v
  have hrun : Builtin.set.run [v] inside = (st.lookup v, inside) := Prod.ext hcaller rfl
  rw [env.dispatch_of_find hfind hcount hdepth, callHandler_eq, Handler.run_builtin, hrun]
  cases st.lookup v <;> rfl

/-- A spelled command in brackets is run with its words. -/
theorem scanUnit_spelled (env : Env H) (c : SpelledCommand) {src : Source} {size : Nat}
    {st : State H} {tail : List Char} (plain : src.Plain size ('[' :: (c.text ++ ']' :: tail))) :
    (scanUnit (env.entry st) src st '[' (c.text ++ ']' :: tail)).result =
      Outcome.map (·, tail) (runEmbedded env.dispatch c.words st) := by
  have hends : EndsCommand true (']' :: tail) tail := .terminated tail (.inr (.inr ⟨rfl, rfl⟩))
  obtain ⟨within, hparse⟩ := c.parseCommand_text size true hends
  rw [scanUnit_result (env.entry st) src size st '[' _ plain, parseUnit, if_neg (by decide),
    if_neg (by decide), if_pos rfl]
  rw [parseCommand] at hparse
  cases hwords : parseWords size true (skipLayout (c.text ++ ']' :: tail)) with
  | error m =>
      rw [hwords] at hparse
      cases hparse
  | ok r =>
      rw [hwords] at hparse
      simp only [Parse.widen, Except.ok.injEq, Parsed.mk.injEq] at hparse
      obtain ⟨hvalue, hrest⟩ := hparse
      show Outcome.map (·, r.rest) (Piece.eval (env.entry st) (.command r.value) st) = _
      rw [hvalue, hrest, Piece.eval, c.evalWords_pieces, Outcome.andThen_ok]
      rfl

/-! ## The law -/

/-- In a state, all ways to come to the variable `v` give what the innermost scope has for it: a
value, or the error that there is none. A reference may be written in any way that is scanned as
`v`, with any text around it, and is read by a host or in the middle of a word. The command may be
dispatched, or run by a script, or stand in brackets in a word, if no limit holds it back. -/
structure Env.ReadsAlike (env : Env H) (st : State H) (v : String) : Prop where
  known : (∃ text, st.stack.get st.stack.top v = .ok text) ∨
    st.stack.get st.stack.top v = .error (.script (.unknownVariable v))
  reference : ∀ {r rest : List Char}, VarRef.Scanned r v.toList rest → ∀ front : List Char,
    let text := front ++ '$' :: r
    Env.readVariable ⟨text, front.length⟩ st =
      ⟨st.stack.get st.stack.top v, ⟨text, text.length - rest.length⟩, st⟩ ∧
    ∀ (d : Dispatcher H) (src : Source), src.Plain text.length text →
      (scanUnit d src st '$' r).result =
        ((st.stack.get st.stack.top v).map fun value => (value.toList, rest), st)
  command : ∀ name : Spelled, st.commands.find? name.word = some (.builtin .set) →
    (st.commandCount : Int) + 1 ≤ env.limits.maxCommands →
    st.stack.depth < env.limits.maxDepth →
    let command : SpelledCommand := ⟨name, [.inBraces v]⟩
    env.dispatch [name.word, v] st =
      ((st.stack.get st.stack.top v).map (⟨·, false⟩), st.ran name.word [v]) ∧
    env.evaluate (String.ofList command.text) st =
      (st.stack.get st.stack.top v, State.ran { st with pendingReturn := false } name.word [v]) ∧
    ∀ front tail : List Char,
      let text := front ++ '[' :: (command.text ++ ']' :: tail)
      ∀ src : Source, src.Plain text.length text →
        (scanUnit (env.entry st) src st '[' (command.text ++ ']' :: tail)).result.1 =
          (st.stack.get st.stack.top v).map fun value => (value.toList, tail)

theorem Env.readsAlike_of_scoped (env : Env H) {st : State H} (h : st.stack.Scoped) (v : String) :
    env.ReadsAlike st v where
  known := h.get_known st.stack.top v
  reference := by
    intro r rest hscanned front text
    constructor
    · rw [Env.readVariable, Cursor.readVariable_scanned hscanned front, String.ofList_toList]
      rfl
    · intro d src plain
      rw [scanUnit_scanned d hscanned (plain.suffix (List.suffix_append front _)),
        String.ofList_toList]
      rfl
  command := by
    intro name hfind hcount hdepth command
    have hget : ∀ pending, env.dispatch command.words { st with pendingReturn := pending } =
        ((st.lookup v).map (⟨·, false⟩),
          State.ran { st with pendingReturn := pending } name.word [v]) := by
      intro pending
      let st' : State H := { st with pendingReturn := pending }
      have hfind' : st'.commands.find? name.word = some (.builtin .set) := hfind
      exact env.dispatch_get hfind' h hcount hdepth v
    refine ⟨hget st.pendingReturn, ?_, ?_⟩
    · rw [env.evaluate_eq, command.evaluateScript_text env rfl, hget]
      show Outcome.map Completion.value ((st.lookup v).map _, _) = (st.lookup v, _)
      cases st.lookup v <;> rfl
    · intro front tail text src plain
      rw [scanUnit_spelled env command (plain.suffix (List.suffix_append front _)), runEmbedded,
        if_neg (by simp [command, SpelledCommand.words]), hget]
      show (Outcome.map _ (Outcome.andThen ((st.lookup v).map _, _) _)).1 = (st.lookup v).map _
      cases st.lookup v <;> rfl

/-- **Every reference finds its variable.** What follows a dollar sign is scanned in one way and no
other, and a reference is read as just that, wherever in a text it stands. In every state that an
interpreter without host commands goes through, whatever is asked of it, a reference to `v` then
gives what the innermost scope has for `v`, and so does the command that asks for `v`. -/
theorem every_reference_finds_its_variable (env : Env Empty) (commands : Table (Handler Empty))
    (stream : Option String) (ops : List Operation) :
    (∀ front r : List Char,
      let text := front ++ '$' :: r
      (∃ name rest, VarRef.Scanned r name rest) ∧
      ∀ name rest, VarRef.Scanned r name rest →
        Cursor.readVariable ⟨text, front.length⟩ =
          (.ok (String.ofList name), ⟨text, text.length - rest.length⟩)) ∧
    let start : State Empty := { commands := commands, stream := stream }
    ∀ st ∈ start :: (env.history ops start).map Moment.state, ∀ v, env.ReadsAlike st v := by
  constructor
  · intro front r text
    exact ⟨⟨_, _, VarRef.scanned_read r⟩, fun _ _ h => Cursor.readVariable_scanned h front⟩
  · intro start st hst v
    have hstart : start.stack.Scoped := .empty
    exact env.readsAlike_of_scoped ((env.history_path ops start).all_states_scoped hstart st hst) v

/-- In the body of `f`, after the name was linked, both ways go through the link, though the command
stands one scope higher. In the other text the index ends at a minus sign, which is lost. -/
theorem every_reference_finds_its_variable_linked :
    let env := Config.bare.env
    let start : State Empty := { commands := Builtin.table }
    let ops := [Operation.setGlobal "g h" "7",
      .evaluate "proc f \x7b\x7d \x7bglobal \x7bg h\x7d; set n 1\x7d; f"]
    let text := ['a', '$', '{', 'g', ' ', 'h', '}', 'b']
    let other := ['$', 'a', ':', 'b', '(', '1', ',', '2', '-', 'c']
    (∃ st ∈ start :: (env.history ops start).map Moment.state,
      st.stack.depth = 2 ∧ (st.stack.view.calls 0).linked "g h" = true ∧
      Env.readVariable ⟨text, 1⟩ st = ⟨.ok "7", ⟨text, 7⟩, st⟩ ∧
      (env.evaluate "set \x7bg h\x7d" st).1 = .ok "7") ∧
    Cursor.readVariable ⟨other, 0⟩ = (.ok "a:b(1,2", ⟨other, 9⟩) := by
  intro env start ops text other
  obtain ⟨hscan, hstates⟩ := every_reference_finds_its_variable env Builtin.table none ops
  constructor
  · -- moment 14 is the one at which `global` has been left
    have hfacts : (((env.history ops start).map Moment.state)[14]?.any fun st =>
        st.stack.depth == 2 && (st.stack.view.calls 0).linked "g h" && st.commandCount == 3 &&
        (st.stack.get st.stack.top "g h").toOption == some "7" &&
        (st.commands.find? "set").any fun handler =>
          handler.casesOn (· == .set) (fun _ => false) (fun _ => false)) = true := by
      decide +kernel
    obtain ⟨st, hst, hfacts⟩ := (Option.any_eq_true _ _).1 hfacts
    simp only [Bool.and_eq_true, beq_iff_eq] at hfacts
    obtain ⟨⟨⟨⟨hdepth, hlinked⟩, hcount⟩, hvalue⟩, hset⟩ := hfacts
    have hmem : st ∈ start :: (env.history ops start).map Moment.state :=
      List.mem_cons_of_mem _ (List.mem_of_getElem? hst)
    have hget : st.stack.get st.stack.top "g h" = .ok "7" := by
      cases hread : st.stack.get st.stack.top "g h" with
      | error fault =>
          rw [hread] at hvalue
          cases hvalue
      | ok value =>
          rw [hread] at hvalue
          exact congrArg Except.ok (Option.some.inj hvalue)
    have hfind : st.commands.find? "set" = some (.builtin .set) := by
      obtain ⟨handler, hhandler, hset⟩ := (Option.any_eq_true _ _).1 hset
      rw [hhandler]
      cases handler with
      | builtin b => rw [eq_of_beq hset]
      | procedure p => cases hset
      | host h => cases hset
    have hroom : (st.commandCount : Int) + 1 ≤ env.limits.maxCommands := by
      rw [hcount]
      decide
    have hnest : (st.stack.depth : Int) < env.limits.maxDepth := by
      rw [hdepth]
      decide
    have halike := hstates st hmem "g h"
    let name := ['g', ' ', 'h']
    have hscanned : VarRef.Scanned ('{' :: (name ++ '}' :: ['b'])) name ['b'] :=
      .braced (by decide)
    obtain ⟨hread, _⟩ := halike.reference hscanned ['a']
    obtain ⟨_, hscript, _⟩ := halike.command ⟨"set", .bare, by decide⟩ hfind hroom hnest
    rw [hget] at hread hscript
    exact ⟨st, hmem, hdepth, hlinked, hread, congrArg Prod.fst hscript⟩
  · have hbase : LongestRun InName other.tail ['a', ':', 'b'] ['(', '1', ',', '2', '-', 'c'] :=
      longestRun_span isNameChar_iff _
    have hindex : LongestRun InIndex ['1', ',', '2', '-', 'c'] ['1', ',', '2'] ['-', 'c'] :=
      longestRun_span isIndexChar_iff _
    exact (hscan [] other.tail).2 _ _ (.cut (by decide) hbase hindex (by decide))

end EmbeddedTcl
