import EmbeddedTcl.Interp.Reading
import EmbeddedTcl.Proofs.Depth

/-!
# Parsing without a state

The words of the command at a position of a text, as trees, found without an interpreter. Reading
the command from any state is evaluating these trees in that state, and a text that is no command
is refused from every state.
-/

namespace EmbeddedTcl

variable {H : Type}

/-! ## Names cut out by position -/

theorem bound_natCast {size n : Nat} (h : n ≤ size) : bound size (n : Int) = n := by
  unfold bound
  rw [if_neg (by omega)]
  omega

namespace Cursor

theorem slice_append (front middle back : List Char) (position : Int) :
    (⟨front ++ (middle ++ back), position⟩ : Cursor).slice front.length
      (front.length + middle.length : Nat) = middle := by
  have h₁ : front.length ≤ (front ++ (middle ++ back)).length := by simp
  have h₂ : front.length + middle.length ≤ (front ++ (middle ++ back)).length := by
    simp only [List.length_append]
    omega
  rw [slice, size, bound_natCast h₁, bound_natCast h₂, ← List.append_assoc,
    ← List.length_append, List.take_left, List.drop_left]

end Cursor

namespace VarRef

/-- Where the name of a reference starts. -/
def body (text : List Char) : List Char :=
  if text.head? = some '{' then text.drop 1 else text

theorem body_suffix (text : List Char) : body text <:+ text := by
  unfold body
  split
  · exact List.drop_suffix 1 text
  · exact List.suffix_rfl

/-- The closing parenthesis of an index, if it is there. -/
theorem closing_append (text : List Char) :
    (if text.head? = some ')' then [')'] else []) <+: text := by
  cases text with
  | nil => simp
  | cons c rest =>
      split
      · rename_i h
        cases h
        exact ⟨rest, rfl⟩
      · exact List.nil_prefix

theorem name_prefix_readPlain (text : List Char) :
    (readPlain text).base ++ (readPlain text).index <+: text := by
  have hsplit := List.takeWhile_append_dropWhile (p := isNameChar) (l := text)
  fun_cases readPlain text with
  | case1 base rest h r =>
      rw [h] at hsplit
      have hindex : rest.takeWhile isIndexChar ++
          (if (rest.dropWhile isIndexChar).head? = some ')' then [')'] else []) <+: rest := by
        conv => rhs; rw [← List.takeWhile_append_dropWhile (p := isIndexChar) (l := rest)]
        exact (List.prefix_append_right_inj _).mpr (closing_append _)
      conv => rhs; rw [← hsplit]
      exact (List.prefix_append_right_inj _).mpr (List.cons_prefix_cons.mpr ⟨rfl, hindex⟩)
  | case2 base h =>
      rw [List.append_nil]
      exact List.takeWhile_prefix _

theorem read_eq_readPlain {text : List Char} (h : text.head? ≠ some '{') :
    read text = readPlain text := by
  unfold read
  split
  · exact absurd rfl h
  · rfl

/-- What belongs to the name stands together at the front. -/
theorem name_prefix (text : List Char) :
    (read text).base ++ (read text).index <+: body text := by
  by_cases h : text.head? = some '{'
  · obtain ⟨rest, rfl⟩ := List.head?_eq_some_iff.mp h
    show rest.takeWhile (· != '}') ++ [] <+: rest
    rw [List.append_nil]
    exact List.takeWhile_prefix _
  · rw [read_eq_readPlain h, body, if_neg h]
    exact name_prefix_readPlain text

end VarRef

namespace Cursor

theorem nameAt_read (c : Cursor) {text : List Char} (h : text <:+ c.text) :
    c.nameAt text (VarRef.read text) = (VarRef.read text).name := by
  obtain ⟨all, position⟩ := c
  -- the whole text is `front`, then the base and the index of the name, then `back`
  obtain ⟨front, hfront⟩ := (VarRef.body_suffix text).trans h
  obtain ⟨back, hback⟩ := VarRef.name_prefix text
  rw [List.append_assoc] at hback
  generalize VarRef.read text = r at hback ⊢
  have hsize : ((all.length : Int) - (VarRef.body text).length) = front.length := by
    have := congrArg List.length hfront
    simp only [List.length_append] at this
    omega
  have hbase := slice_append front r.base (r.index ++ back) position
  have hindex := slice_append (front ++ r.base) r.index back position
  rw [hback, hfront] at hbase
  rw [List.append_assoc, hback, hfront, List.length_append] at hindex
  have hstart : ((⟨all, position⟩ : Cursor).withRest (VarRef.body text)).position =
      front.length := hsize
  rw [nameAt, VarRef.name, ← VarRef.body]
  simp only [hstart]
  rw [← Int.natCast_add, ← Int.natCast_add, hbase, hindex]

theorem source_plain (c : Cursor) : c.source.Plain c.size c.text :=
  ⟨rfl, fun _ h => c.nameAt_read h⟩

end Cursor

/-! ## Commands at a position -/

/-- The command at a position of a text, and the position after it. An embedded command starts
after the bracket at the position. -/
def parseAt (text : List Char) (pos : Nat) (embedded : Bool) :
    Except Malformed (List Word × Nat) :=
  match parseCommand text.length embedded (text.drop (pos + if embedded then 1 else 0)) with
  | .ok r => .ok (r.value, text.length - r.rest.length)
  | .error m => .error m

theorem Malformed.raise_fails {α : Type} (d : Dispatcher H) (m : Malformed) (st : State H) :
    ∃ fault, (m.raise d st : Outcome H α).1 = .error fault := by
  unfold raise
  rcases evalWord d m.before st with ⟨fault | text, st'⟩
  · exact ⟨fault, rfl⟩
  · exact ⟨.script m.error, rfl⟩

/-- Reading a command at a position that is not in front of the text. -/
theorem Env.readCommand_natCast (env : Env H) (embedded : Bool) (text : List Char) (pos : Nat)
    (st : State H) :
    let cursor : Cursor := ⟨text, pos⟩
    let scan := scanCommand (env.entry st) cursor.source embedded st
      (text.drop (pos + if embedded then 1 else 0))
    env.readCommand embedded cursor st = ⟨scan.outcome, cursor.withRest scan.rest, scan.state⟩ := by
  have h : (⟨text, pos⟩ : Cursor).view? (pos + ((if embedded then 1 else 0 : Nat) : Int)) =
      some (text.drop (pos + if embedded then 1 else 0)) := by
    rw [Cursor.view?, if_pos (by omega)]
    rfl
  simp only [readCommand, scanAt, h]

/-- **Parsing needs no state.** What a command at a position is read as, and where it ends, is
settled by the text: from every state, reading it gives the words, the fault and the state that
its trees evaluate to from left to right. A text that is no command is refused from every state,
after what stands complete in front of the fault was evaluated. -/
theorem readCommand_eq_eval_parseAt (env : Env H) (text : List Char) (pos : Nat) (embedded : Bool)
    (st : State H) :
    let reading := env.readCommand embedded ⟨text, pos⟩ st
    match parseAt text pos embedded with
    | .ok (words, stop) =>
      (reading.outcome, reading.state) = evalWords env.dispatch words st ∧
        ∀ texts, reading.outcome = .ok texts → reading.cursor = ⟨text, stop⟩
    | .error m =>
      (reading.outcome, reading.state) = m.raise env.dispatch st ∧
        ∃ fault, reading.outcome = .error fault := by
  intro reading
  have hread : reading = _ := env.readCommand_natCast embedded text pos st
  have hscan := scanCommand_result (env.entry st) (Cursor.source ⟨text, pos⟩) text.length embedded st
    (text.drop (pos + if embedded then 1 else 0))
    ((Cursor.source_plain ⟨text, pos⟩).suffix (List.drop_suffix _ _))
  rw [hread, parseAt]
  generalize scanCommand (env.entry st) (Cursor.source ⟨text, pos⟩) embedded st
    (text.drop (pos + if embedded then 1 else 0)) = scan at hscan ⊢
  cases hparse : parseCommand text.length embedded
    (text.drop (pos + if embedded then 1 else 0)) with
  | error m =>
      rw [hparse] at hscan
      have heval : (scan.outcome, scan.state) = m.raise env.dispatch st := by
        rw [scan.outcome_state, hscan]
        exact (m.andThen_raise _ st _).trans (env.raise_entry m st)
      refine ⟨heval, ?_⟩
      obtain ⟨fault, hfault⟩ := m.raise_fails (α := List String) env.dispatch st
      exact ⟨fault, (congrArg Prod.fst heval).trans hfault⟩
  | ok r =>
      rw [hparse] at hscan
      have heval : (scan.outcome, scan.state) = evalWords env.dispatch r.value st := by
        rw [scan.outcome_state, hscan, ← env.evalWords_entry]
        exact (Outcome.map_map (·, r.rest) Prod.fst _).trans (Outcome.map_id_fun _)
      refine ⟨heval, ?_⟩
      intro texts htexts
      have hrest : scan.rest = r.rest := scan.rest_eq_of_result hscan htexts
      have hlength : r.rest.length ≤ text.length := by
        have h := (r.within.trans (List.tail_suffix _)).trans (List.drop_suffix _ text)
        exact h.length_le
      simp only [Cursor.withRest, Cursor.size, hrest, Int.ofNat_sub hlength]

end EmbeddedTcl
