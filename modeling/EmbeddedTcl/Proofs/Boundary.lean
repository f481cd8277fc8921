import EmbeddedTcl.Proofs.Lookahead
import EmbeddedTcl.Proofs.PureParse

/-!
# Command boundaries

A script is run command by command, and between two commands nothing of it is known but what has
been read. So the text after a boundary can be cut off or replaced, and what ran before it is the
same. A text that is malformed further on has run all that stands complete in front.
-/

namespace EmbeddedTcl

variable {H : Type}

namespace Env

/-- Reads the command at position `q` of a text, from state `s` on. `st` is the state in which the
evaluation of the text was started. -/
def readAt (env : Env H) (text : List Char) (st : State H) (q : Nat) (s : State H) :
    Outcome H (List String × List Char) :=
  (scanCommand (env.entry st) (.ofText text) false s (text.drop q)).result

/-- An evaluation of `text` from `st` on is about to read the command at a position: with the
completion of the command that was run last, and the state that the commands so far have left. -/
inductive Boundary (env : Env H) (text : List Char) (st : State H) :
    (position : Nat) → (last : Completion) → (state : State H) → Prop where
  | start : Boundary env text st 0 {} st
  /-- Layout, or a command whose words are none, leaves the completion as it was. -/
  | empty {q : Nat} {last : Completion} {s s' : State H} {rest : List Char}
      (before : Boundary env text st q last s) (more : q < text.length)
      (read : env.readAt text st q s = (.ok ([], rest), s')) :
      Boundary env text st (text.length - rest.length) last { s' with pendingReturn := false }
  /-- A command has run without error and did not return. -/
  | command {q : Nat} {last completion : Completion} {s s' s'' : State H} {words : List String}
      {rest : List Char} (before : Boundary env text st q last s) (more : q < text.length)
      (read : env.readAt text st q s = (.ok (words, rest), s')) (named : words ≠ [])
      (ran : env.entry st words { s' with pendingReturn := false } = (.ok completion, s''))
      (stays : (completion.returningIf s'.pendingReturn).returning = false) :
      Boundary env text st (text.length - rest.length) completion s''

/-- Goes on with the evaluation of a text at position `q`, from state `s` on. -/
def resumeAt (env : Env H) (text : List Char) (st : State H) (q : Nat) (last : Completion)
    (s : State H) : Outcome H Completion :=
  let scan := runScript (env.entry st) (.ofText text) last s (text.drop q)
  (scan.outcome, scan.state)

variable (env : Env H)

theorem readAt_eq (text : List Char) (st : State H) (q : Nat) (s : State H) :
    env.readAt text st q s =
      (parseCommand text.length false (text.drop q)).run (env.entry st) (evalWords (env.entry st))
        s :=
  scanCommand_result _ _ _ _ _ _ ((Source.plain_ofText text).suffix (List.drop_suffix q text))

theorem resumeAt_eq (text : List Char) (st : State H) (q : Nat) (last : Completion) (s : State H) :
    env.resumeAt text st q last s =
      (parseScript text.length (text.drop q)).run (env.entry st) last s := by
  rw [resumeAt, Scan.outcome_state]
  exact runScript_result _ _ _ _ _ _
    ((Source.plain_ofText text).suffix (List.drop_suffix q text))

/-- The next command is read, and the script goes on after it. -/
theorem resumeAt_read {text : List Char} {q : Nat} (hq : q < text.length) (st : State H)
    (last : Completion) (s : State H) :
    env.resumeAt text st q last s =
      Outcome.andThen (env.readAt text st q s) fun read s' =>
        followCommand (env.entry st) text.length last read.1 read.2 s' := by
  obtain ⟨c, rest, hdrop⟩ : ∃ c rest, text.drop q = c :: rest :=
    List.exists_cons_of_ne_nil fun hnil => absurd (List.drop_eq_nil_iff.1 hnil) (Nat.not_le.2 hq)
  rw [resumeAt_eq, readAt_eq, hdrop]
  exact parseScript_run _ _ _ _ c rest

/-- A command that was read is one that was parsed, and its words are what its trees evaluate to. -/
theorem parse_of_readAt {text rest : List Char} {st s s' : State H} {q : Nat}
    {words : List String} (h : env.readAt text st q s = (.ok (words, rest), s')) :
    ∃ trees, (parseCommand text.length false (text.drop q)).read? = some (trees, rest) ∧
      evalWords (env.entry st) trees s = (.ok words, s') := by
  rw [readAt_eq] at h
  cases hparse : parseCommand text.length false (text.drop q) with
  | error m =>
      rw [hparse, Parse.run] at h
      obtain ⟨fault, hfault⟩ := m.raise_fails (env.entry st) s
      cases hfault.symm.trans (congrArg Prod.fst h)
  | ok r =>
      rw [hparse, Parse.run] at h
      refine ⟨r.value, ?_⟩
      generalize evalWords (env.entry st) r.value s = o at h ⊢
      rcases o with ⟨fault | words', s₁⟩
      · cases h
      · cases h
        exact ⟨rfl, rfl⟩

theorem readAt_of_parse {text rest : List Char} {st s s' : State H} {q : Nat}
    {words : List String} {trees : List Word}
    (hparse : (parseCommand text.length false (text.drop q)).read? = some (trees, rest))
    (heval : evalWords (env.entry st) trees s = (.ok words, s')) :
    env.readAt text st q s = (.ok (words, rest), s') := by
  rw [readAt_eq]
  cases hread : parseCommand text.length false (text.drop q) with
  | error m =>
      rw [hread] at hparse
      cases hparse
  | ok r =>
      rw [hread] at hparse
      cases hparse
      rw [Parse.run, heval]
      rfl

/-- The text that a command leaves stands where the next position says. -/
theorem drop_of_readAt {text rest : List Char} {st s s' : State H} {q : Nat} {words : List String}
    (h : env.readAt text st q s = (.ok (words, rest), s')) :
    text.drop (text.length - rest.length) = rest := by
  obtain ⟨trees, hparse, _⟩ := env.parse_of_readAt h
  have hsuffix : rest <:+ text :=
    (Parse.suffix_of_read? hparse).trans ((List.tail_suffix _).trans (List.drop_suffix q text))
  exact (List.suffix_iff_eq_drop.1 hsuffix).symm

/-- A command that leaves something to be read ends at the same position in front of any other
text. -/
theorem readAt_append {text rest : List Char} {st s s' : State H} {q : Nat} {words : List String}
    (h : env.readAt text st q s = (.ok (words, rest), s')) (hq : q < text.length)
    (hnext : text.length - rest.length < text.length) :
    ∃ front, ∀ u,
      let text' := text.take (text.length - rest.length) ++ u
      text' = text.take q ++ (front ++ u) ∧ q < text'.length ∧
        text'.length - u.length = text.length - rest.length ∧
        env.readAt text' st q s = (.ok (words, u), s') := by
  have hrest : rest ≠ [] := by
    rintro rfl
    exact absurd hnext (Nat.lt_irrefl _)
  obtain ⟨trees, hparse, heval⟩ := env.parse_of_readAt h
  obtain ⟨front, hne, hfront, _⟩ := parseCommand_closes _ 0 false hparse hrest
  have htake : (text.take q).length = q := List.length_take_of_le (Nat.le_of_lt hq)
  have htext : text = text.take q ++ front ++ rest := by
    rw [List.append_assoc, ← hfront, List.take_append_drop]
  have hlength : text.length - rest.length = (text.take q ++ front).length := by
    rw [congrArg List.length htext, List.length_append, Nat.add_sub_cancel]
  refine ⟨front, ?_⟩
  intro u text'
  have htext' : text' = text.take q ++ (front ++ u) := by
    have hread : text.take (text.length - rest.length) = text.take q ++ front := by
      rw [hlength]
      exact (congrArg (List.take _) htext).trans List.take_left
    show text.take (text.length - rest.length) ++ u = _
    rw [hread, List.append_assoc]
  refine ⟨htext', ?_, ?_, ?_⟩
  · have hpos := List.length_pos_iff.2 hne
    rw [htext', List.length_append, List.length_append, htake]
    omega
  · rw [htext', hlength, ← List.append_assoc, List.length_append, Nat.add_sub_cancel]
  · obtain ⟨front', _, hfront', hclosed⟩ := parseCommand_closes _ text'.length false hparse hrest
    obtain rfl : front = front' := List.append_cancel_right (hfront.symm.trans hfront')
    refine env.readAt_of_parse ?_ heval
    rw [htext', List.drop_left' htake, ← htext']
    exact hclosed u

namespace Boundary

variable {env} {text : List Char} {st s : State H} {q : Nat} {last : Completion}

/-- **A boundary does not depend on what follows it.** -/
theorem append (h : env.Boundary text st q last s) :
    q < text.length → ∀ u, env.Boundary (text.take q ++ u) st q last s := by
  induction h with
  | start => exact fun _ _ => .start
  | empty before more read ih =>
      intro hq u
      obtain ⟨front, hfront⟩ := env.readAt_append read more hq
      obtain ⟨htext, hmore, hposition, hread⟩ := hfront u
      have hbefore := ih more (front ++ u)
      rw [← htext] at hbefore
      have hnext := Boundary.empty hbefore hmore hread
      rwa [hposition] at hnext
  | command before more read named ran stays ih =>
      intro hq u
      obtain ⟨front, hfront⟩ := env.readAt_append read more hq
      obtain ⟨htext, hmore, hposition, hread⟩ := hfront u
      have hbefore := ih more (front ++ u)
      rw [← htext] at hbefore
      have hnext := Boundary.command hbefore hmore hread named ran stays
      rwa [hposition] at hnext

/-- An evaluation goes through its boundaries: from each it goes on to where it ends. -/
theorem evaluateScript_eq (h : env.Boundary text st q last s) :
    env.evaluateScript (String.ofList text) st = env.resumeAt text st q last s := by
  induction h with
  | start =>
      rw [Env.evaluateScript, EmbeddedTcl.evaluateScript, String.toList_ofList]
      rfl
  | empty before more read ih =>
      rw [ih, env.resumeAt_read more, read, resumeAt_eq, env.drop_of_readAt read]
      rfl
  | command before more read named ran stays ih =>
      rw [ih, env.resumeAt_read more, read, resumeAt_eq, env.drop_of_readAt read]
      rw [Outcome.andThen_ok, followCommand, if_neg (by simpa using named), ran,
        Outcome.andThen_ok, stays]
      rfl

end Boundary

end Env

/-- **What follows a boundary never affects what ran before it.** If an evaluation is about to read
a command at a position in front of the end of its text, then so is the evaluation of any text that
begins with the part in front of that position: with the same completion and in the same state. From
there it goes on with the new text; if there is none, it ends. -/
theorem rest_of_script_affects_nothing_before (env : Env H) (text : List Char) (st : State H)
    (q : Nat) (last : Completion) (s : State H) (h : env.Boundary text st q last s)
    (hq : q < text.length) :
    (∀ u, env.Boundary (text.take q ++ u) st q last s ∧
      env.evaluateScript (String.ofList (text.take q ++ u)) st =
        env.resumeAt (text.take q ++ u) st q last s) ∧
    env.evaluateScript (String.ofList (text.take q)) st = (.ok last, s) := by
  have happend : ∀ u, env.Boundary (text.take q ++ u) st q last s := h.append hq
  refine ⟨fun u => ⟨happend u, (happend u).evaluateScript_eq⟩, ?_⟩
  have hend := (happend []).evaluateScript_eq
  rw [List.append_nil] at hend
  rw [hend, env.resumeAt_eq, List.drop_eq_nil_of_le (List.length_take_le q text), parseScript]
  rfl

theorem Outcome.eq_of_toOption {α : Type} {o : Outcome H α} {value : α}
    (h : o.1.toOption = some value) : o = (.ok value, o.2) := by
  obtain ⟨fault | value', st⟩ := o
  · cases h
  · cases h
    rfl

/-- A quote that is never closed comes too late to undo the assignments in front of it. -/
theorem unclosed_quote_leaves_assignments :
    let env : Env Empty := { host := nofun, fresh := {} }
    let st : State Empty := { commands := Builtin.table }
    let text := "set a [set b 1]; puts \"$a".toList
    ∃ s, env.Boundary text st 16 ⟨"1", false⟩ s ∧ 16 < text.length ∧
      (s.stack.get 0 "a").toOption = some "1" ∧ (s.stack.get 0 "b").toOption = some "1" ∧
      (∀ u, env.Boundary (text.take 16 ++ u) st 16 ⟨"1", false⟩ s ∧
        env.evaluateScript (String.ofList (text.take 16 ++ u)) st =
          env.resumeAt (text.take 16 ++ u) st 16 ⟨"1", false⟩ s) ∧
      env.evaluateScript (String.ofList (text.take 16)) st = (.ok ⟨"1", false⟩, s) := by
  intro env st text
  let o := env.readAt text st 0 st
  let o' := env.entry st ["set", "a", "1"] { o.2 with pendingReturn := false }
  have hread : o.1.toOption = some (["set", "a", "1"], " puts \"$a".toList) := by decide +kernel
  have hran : o'.1.toOption = some ⟨"1", false⟩ := by decide +kernel
  have hpending : o.2.pendingReturn = false := by decide +kernel
  have hmore : 16 < text.length := by decide
  have hstays : ((⟨"1", false⟩ : Completion).returningIf o.2.pendingReturn).returning = false := by
    rw [hpending]
    rfl
  have hboundary : env.Boundary text st 16 ⟨"1", false⟩ o'.2 :=
    .command .start (by decide) (Outcome.eq_of_toOption hread) (by decide)
      (Outcome.eq_of_toOption hran) hstays
  refine ⟨o'.2, hboundary, hmore, by decide +kernel, by decide +kernel, ?_⟩
  exact rest_of_script_affects_nothing_before env text st 16 _ o'.2 hboundary hmore

end EmbeddedTcl
