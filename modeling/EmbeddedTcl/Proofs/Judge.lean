import EmbeddedTcl.Proofs.Trace

/-!
# Evaluation without a marker

What a return is meant to do, said without `pendingReturn`. Reading the words of a command gives,
beside their texts, the completions of all commands that were embedded in them, at every depth of
brackets; when the command itself has run, the script ends there if it returned or if one of those
did. Nothing has to be saved, cleared or put back. `Shown` relates this evaluation to the one that
keeps a marker, and `dispatchWith_shown` is the simulation.
-/

namespace EmbeddedTcl

variable {H α β γ δ : Type}

/-! ## The evaluation -/

/-- A fault, with the completions of the commands embedded in the words that were being read when
it struck. There are none if a command itself failed. -/
structure Failure where
  fault : Fault
  embedded : List Completion

abbrev Judged (H α : Type) := Except Failure α × State H

/-- Goes on from a success; a failure stays as it is. -/
def Judged.andThen (r : Judged H α) (next : α → State H → Judged H β) : Judged H β :=
  match r with
  | (.ok value, st) => next value st
  | (.error failure, st) => (.error failure, st)

/-- Runs a command that is given as words. -/
abbrev Judge (H : Type) := List String → State H → Judged H Completion

section

variable (j : Judge H)

def judgeEmbedded (texts : List String) (seen : List Completion) (st : State H) :
    Judged H (List Char × List Completion) :=
  if texts.isEmpty then (.ok ([], seen), st)
  else
    Judged.andThen (j texts st) fun completion st' =>
      (.ok (completion.value.toList, seen ++ [completion]), st')

mutual

/-- The text of a piece. `seen` are the completions of the embedded commands so far. -/
def Piece.judge : Piece → List Completion → State H → Judged H (List Char × List Completion)
  | .char c, seen, st => (.ok ([c], seen), st)
  | .escaped value, seen, st => (.ok (value, seen), st)
  | .read name, seen, st =>
    match st.lookup name with
    | .ok text => (.ok (text.toList, seen), st)
    | .error fault => (.error ⟨fault, seen⟩, st)
  | .command words, seen, st =>
    Judged.andThen (judgeWords words seen st) fun read st' => judgeEmbedded j read.1 read.2 st'

def judgeWord : List Piece → List Completion → State H → Judged H (List Char × List Completion)
  | [], seen, st => (.ok ([], seen), st)
  | piece :: more, seen, st =>
    Judged.andThen (piece.judge seen st) fun first st' =>
      Judged.andThen (judgeWord more first.2 st') fun rest st'' =>
        (.ok (first.1 ++ rest.1, rest.2), st'')

def judgeWords :
    List (List Piece) → List Completion → State H → Judged H (List String × List Completion)
  | [], seen, st => (.ok ([], seen), st)
  | word :: more, seen, st =>
    Judged.andThen (judgeWord word seen st) fun first st' =>
      Judged.andThen (judgeWords more first.2 st') fun rest st'' =>
        (.ok (String.ofList first.1 :: rest.1, rest.2), st'')

end

/-- Runs the commands of a script. It ends with a command that returned, or in whose words some
embedded command returned. -/
def Script.judge : Script → Completion → State H → Judged H Completion
  | .stop, last, st => (.ok last, st)
  | .broken m, _, st =>
    Judged.andThen (judgeWord j m.before [] st) fun read st' =>
      (.error ⟨.script m.error, read.2⟩, st')
  | .command words more, last, st =>
    Judged.andThen (judgeWords j words [] st) fun read st' =>
      if read.1.isEmpty then more.judge last st'
      else
        Judged.andThen (j read.1 st') fun completion st'' =>
          if completion.returning = true ∨ ∃ e ∈ read.2, e.returning = true then
            (.ok ⟨completion.value, true⟩, st'')
          else more.judge completion st''

end

/-- Runs a command in the scope made for it. Of the built-ins `return` alone returns, and a
procedure never does. -/
def judgeCall (j : Judge Empty) (args : List String) (st : State Empty) :
    Handler Empty → Judged Empty Completion
  | .builtin b =>
    match b.run args st.inside with
    | (.ok text, st') => (.ok ⟨text, b = .ret⟩, st'.leave)
    | (.error fault, st') => (.error ⟨fault, []⟩, st'.leave)
  | .procedure p =>
    match (Script.ofString p.body).judge j {}
      { st.inside with stack := st.inside.stack.bind p.params args } with
    | (.ok completion, st') => (.ok ⟨completion.value, false⟩, st'.leave)
    | (.error failure, st') => (.error failure, st'.leave)

def judgeEnter (env : Env Empty) (inner : Option (Judge Empty)) : Judge Empty
  | [], st => (.error ⟨.noWords, []⟩, st)
  | name :: args, st =>
    match st.commands.find? name with
    | none => (.error ⟨.script (.unknownCommand name), []⟩, st)
    | some handler =>
      let st' := { st with commandCount := st.commandCount + 1 }
      if st'.commandCount > env.limits.maxCommands then
        (.error ⟨.script env.limits.commandsError, []⟩, st')
      else
        match inner with
        | none => (.error ⟨.script env.limits.depthError, []⟩, st')
        | some j => judgeCall j args (st'.note (.dispatching name args st.stack.depth)) handler

def judgeWith (env : Env Empty) : (room : Nat) → Judge Empty
  | 0 => judgeEnter env none
  | room + 1 => judgeEnter env (some (judgeWith env room))

/-! ## Putting the marker back -/

/-- The marker that stands for these completions: whether one of them returned. -/
def State.marked (st : State H) (seen : List Completion) : State H :=
  { st with pendingReturn := seen.any Completion.returning }

theorem State.clear_pending {st : State H} (h : st.pendingReturn = false) :
    { st with pendingReturn := false } = st := by
  obtain ⟨⟨_, _, _, _, _, _⟩, _, _, _⟩ := st
  cases h
  rfl

theorem State.marked_nil {st : State H} (h : st.pendingReturn = false) : st.marked [] = st :=
  clear_pending h

theorem State.marked_clear (st : State H) (seen : List Completion)
    (h : st.pendingReturn = false) : { st.marked seen with pendingReturn := false } = st :=
  clear_pending h

/-- An outcome as an evaluation without a marker has it. `view` tells what a success looks like to
an evaluation with one; a failure leaves the marker of the words that were being read. -/
def Judged.shown (view : α → State H → β × State H) : Judged H α → Outcome H β
  | (.ok value, st) => (.ok (view value st).1, (view value st).2)
  | (.error failure, st) => (.error failure.fault, st.marked failure.embedded)

/-- The two evaluations agree, and the one without a marker never sets one. -/
def Shown (view : α → State H → β × State H) (o : Outcome H β) (r : Judged H α) : Prop :=
  o = r.shown view ∧ r.2.pendingReturn = false

/-- What reading looks like: the marker stands for the embedded commands so far. -/
def readView (read : α × List Completion) (st : State H) : α × State H :=
  (read.1, st.marked read.2)

/-- What running a command or a script looks like: no marker is left. -/
def runView (value : α) (st : State H) : α × State H :=
  (value, st)

theorem Shown.andThen {view : α → State H → β × State H} {view' : γ → State H → δ × State H}
    {o : Outcome H β} {r : Judged H α} {f : β → State H → Outcome H δ}
    {g : α → State H → Judged H γ} (h : Shown view o r)
    (next : ∀ value st, st.pendingReturn = false →
      Shown view' (f (view value st).1 (view value st).2) (g value st)) :
    Shown view' (Outcome.andThen o f) (r.andThen g) := by
  rcases r with ⟨failure | value, st⟩
  · obtain ⟨rfl, hclean⟩ := h
    exact ⟨rfl, hclean⟩
  · obtain ⟨rfl, hclean⟩ := h
    exact next value st hclean

/-- A command that fails by itself leaves no marker where it found none. -/
theorem Shown.fault (fault : Fault) {st : State H} (h : st.pendingReturn = false) :
    Shown (α := α) runView (.error fault, st) (.error ⟨fault, []⟩, st) :=
  ⟨Prod.ext rfl (State.marked_nil h).symm, h⟩

/-- A dispatcher that is what a marker-free one shows, where no return is pending. -/
def Dispatcher.Shows (d : Dispatcher H) (j : Judge H) : Prop :=
  ∀ words st, st.pendingReturn = false → Shown runView (d words st) (j words st)

section

variable {d : Dispatcher H} {j : Judge H}

theorem runEmbedded_shown (hd : d.Shows j) (texts : List String) (seen : List Completion)
    {st : State H} (h : st.pendingReturn = false) :
    Shown readView (runEmbedded d texts (st.marked seen)) (judgeEmbedded j texts seen st) := by
  rw [runEmbedded, judgeEmbedded, State.marked_clear st seen h]
  split
  · exact ⟨rfl, h⟩
  -- the marker comes back as the old one or the command's own: one completion more was seen
  · refine (hd texts st h).andThen fun completion st' h' => ⟨?_, h'⟩
    simp [runView, Judged.shown, readView, State.marked]

mutual

theorem Piece.eval_shown (hd : d.Shows j) :
    ∀ (piece : Piece) (seen : List Completion) {st : State H}, st.pendingReturn = false →
      Shown readView (piece.eval d (st.marked seen)) (piece.judge j seen st)
  | .char c, seen, st, h => by
      rw [Piece.eval, Piece.judge]
      exact ⟨rfl, h⟩
  | .escaped value, seen, st, h => by
      rw [Piece.eval, Piece.judge]
      exact ⟨rfl, h⟩
  | .read name, seen, st, h => by
      have hlookup : (st.marked seen).lookup name = st.lookup name := rfl
      rw [Piece.eval, Piece.judge, hlookup]
      cases st.lookup name <;> exact ⟨rfl, h⟩
  | .command words, seen, st, h => by
      rw [Piece.eval, Piece.judge]
      exact (evalWords_shown hd words seen h).andThen fun read st' h' =>
        runEmbedded_shown hd read.1 read.2 h'

theorem evalWord_shown (hd : d.Shows j) :
    ∀ (word : List Piece) (seen : List Completion) {st : State H}, st.pendingReturn = false →
      Shown readView (evalWord d word (st.marked seen)) (judgeWord j word seen st)
  | [], seen, st, h => by
      rw [evalWord, judgeWord]
      exact ⟨rfl, h⟩
  | piece :: more, seen, st, h => by
      rw [evalWord, judgeWord]
      refine (piece.eval_shown hd seen h).andThen fun first st' h' => ?_
      exact (evalWord_shown hd more first.2 h').andThen fun rest st'' h'' => ⟨rfl, h''⟩

theorem evalWords_shown (hd : d.Shows j) :
    ∀ (words : List (List Piece)) (seen : List Completion) {st : State H},
      st.pendingReturn = false →
        Shown readView (evalWords d words (st.marked seen)) (judgeWords j words seen st)
  | [], seen, st, h => by
      rw [evalWords, judgeWords]
      exact ⟨rfl, h⟩
  | word :: more, seen, st, h => by
      rw [evalWords, judgeWords]
      refine (evalWord_shown hd word seen h).andThen fun first st' h' => ?_
      exact (evalWords_shown hd more first.2 h').andThen fun rest st'' h'' => ⟨rfl, h''⟩

end

theorem returningIf_any (completion : Completion) (seen : List Completion) :
    (completion.returningIf (seen.any Completion.returning)).returning = true ↔
      completion.returning = true ∨ ∃ e ∈ seen, e.returning = true := by
  simp [Completion.returningIf]

theorem returningIf_of_returning {completion : Completion} {embedded : Bool}
    (h : (completion.returningIf embedded).returning = true) :
    completion.returningIf embedded = ⟨completion.value, true⟩ :=
  congrArg (Completion.mk completion.value) h

theorem Script.run_shown (hd : d.Shows j) (script : Script) :
    ∀ (last : Completion) {st : State H}, st.pendingReturn = false →
      Shown runView (script.run d last st) (script.judge j last st) := by
  induction script with
  | stop =>
      intro last st h
      exact ⟨rfl, h⟩
  | broken m =>
      intro last st h
      have hword := evalWord_shown hd m.before [] h
      rw [State.marked_nil h] at hword
      exact hword.andThen fun read st' h' => ⟨rfl, h'⟩
  | command words more ih =>
      intro last st h
      -- the words are read with nothing seen so far, which is the marker that the state has
      have hwords := evalWords_shown hd words [] h
      rw [State.marked_nil h] at hwords
      refine hwords.andThen fun read st' h' => ?_
      simp only [readView, State.marked_clear st' read.2 h']
      split
      · exact ih last h'
      · refine (hd read.1 st' h').andThen fun completion st'' h'' => ?_
        have hends := returningIf_any completion read.2
        simp only [runView, State.marked, hends]
        split
        · rename_i hreturning
          refine ⟨?_, h''⟩
          rw [returningIf_of_returning (hends.2 hreturning)]
          rfl
        · exact ih completion h''

end

/-! ## Dispatch -/

/-- Whether a built-in that succeeds asks for a return depends on nothing but which one it is. -/
theorem Builtin.Does.returnFlag {b : Builtin} {st st' : State H} {text : String}
    (h : b.Does st (.ok text, st')) (hflag : st.returnFlag = false) :
    st'.returnFlag = decide (b = ret) := by
  cases h with
  | links names =>
      obtain ⟨stack, log, heq, _⟩ := linkGlobals_eq names st
      rw [heq]
      exact hflag
  | writes text =>
      obtain ⟨stream, output, heq⟩ := st.write_eq text
      rw [heq]
      exact hflag
  | returns => rfl
  | _ => exact hflag

theorem Builtin.Does.pendingReturn {b : Builtin} {st : State H} {o : Outcome H String}
    (h : b.Does st o) : o.2.pendingReturn = st.pendingReturn := by
  cases h with
  | links names =>
      obtain ⟨stack, log, heq, _⟩ := linkGlobals_eq names st
      rw [heq]
  | writes text =>
      obtain ⟨stream, output, heq⟩ := st.write_eq text
      rw [heq]
  | _ => rfl

/-- No dispatch leaves the return flag up: a command that was run has it lowered, and a command
that was not run did not touch it. -/
theorem dispatchWith_flag (env : Env H) (renewed : Evaluator H) (room : Nat) (words : List String)
    {st : State H} (h : st.returnFlag = false) :
    (dispatchWith env renewed room words st).2.returnFlag = false := by
  cases words with
  | nil => cases room <;> exact h
  | cons name args =>
      cases room <;> rw [dispatchWith, enter]
      all_goals
        split
        · exact h
        dsimp only
        split
        · exact h
      · exact h
      · rw [callHandler_eq]
        rfl

theorem dispatchWith_keeps_flag (env : Env H) (renewed : Evaluator H) (room : Nat) :
    (dispatchWith env renewed room).Keeps fun st => st.returnFlag = false :=
  fun words _ h _ => dispatchWith_flag env renewed room words h

theorem returnFlag_unmarked : Unmarked fun st : State H => st.returnFlag = false :=
  fun _ _ h => h

section

variable (env : Env Empty) {d : Dispatcher Empty} {j : Judge Empty} (renewed : Evaluator Empty)

theorem callHandler_shown (hd : d.Shows j) (hlow : d.Keeps fun st => st.returnFlag = false)
    (handler : Handler Empty) (args : List String) {st : State Empty}
    (h : st.pendingReturn = false) :
    Shown runView (callHandler env d renewed handler args st) (judgeCall j args st handler) := by
  rw [callHandler_eq]
  cases handler with
  | builtin b =>
      rw [Handler.run_builtin, judgeCall]
      have hdoes := b.run_does args st.inside
      generalize b.run args st.inside = o at hdoes ⊢
      rcases o with ⟨fault | text, st'⟩
      · have hclean : st'.leave.pendingReturn = false := hdoes.pendingReturn.trans h
        exact .fault fault hclean
      · have hflag : st'.returnFlag = decide (b = .ret) := hdoes.returnFlag rfl
        refine ⟨Prod.ext ?_ rfl, hdoes.pendingReturn.trans h⟩
        exact congrArg (fun flag => Except.ok (Completion.mk text flag)) hflag
  | procedure p =>
      rw [Handler.run_procedure, judgeCall, evaluateScript_eq_run]
      let bound := { st.inside with stack := st.inside.stack.bind p.params args }
      have hclean : bound.pendingReturn = false := h
      have hdown : bound.returnFlag = false := rfl
      have hbody := Script.run_shown hd (.ofString p.body) {} hclean
      have hlow' := Script.run_keeps returnFlag_unmarked hlow (.ofString p.body) {} hdown
      -- whatever the body did about returning, the flag is down when it ends
      generalize (Script.ofString p.body).run d {} bound = o at hbody hlow' ⊢
      generalize (Script.ofString p.body).judge j {} bound = r at hbody ⊢
      rcases r with ⟨failure | completion, st'⟩
      · obtain ⟨rfl, hclean⟩ := hbody
        exact ⟨rfl, hclean⟩
      · obtain ⟨rfl, hclean⟩ := hbody
        refine ⟨Prod.ext ?_ rfl, hclean⟩
        exact congrArg (fun flag => Except.ok (Completion.mk completion.value flag)) hlow'
  | host h => exact h.elim

theorem enter_shown (inner : Option (Dispatcher Empty × Judge Empty))
    (hinner : ∀ p ∈ inner, p.1.Shows p.2 ∧ p.1.Keeps fun st => st.returnFlag = false) :
    (enter env renewed (inner.map Prod.fst)).Shows (judgeEnter env (inner.map Prod.snd)) := by
  intro words st h
  cases words with
  | nil => exact .fault _ h
  | cons name args =>
      rw [enter, judgeEnter]
      cases st.commands.find? name with
      | none => exact .fault _ h
      | some handler =>
          dsimp only
          split
          · exact .fault _ h
          · cases inner with
            | none => exact .fault _ h
            | some p =>
                obtain ⟨hshows, hlow⟩ := hinner p rfl
                exact callHandler_shown env renewed hshows hlow handler args h

/-- **The marker is not needed.** With no return pending, a dispatch does what it does without a
marker, however deep the calls and brackets in it are nested. -/
theorem dispatchWith_shown (room : Nat) :
    (dispatchWith env renewed room).Shows (judgeWith env room) := by
  induction room with
  | zero => exact enter_shown env renewed none (by simp)
  | succ room ih =>
      refine enter_shown env renewed
        (some (dispatchWith env renewed room, judgeWith env room)) ?_
      rintro p ⟨⟩
      exact ⟨ih, dispatchWith_keeps_flag env renewed room⟩

end

namespace Env

/-- Runs a script without a marker. -/
def judgeScript (env : Env Empty) (script : String) (st : State Empty) : Judged Empty Completion :=
  (Script.ofString script).judge (judgeWith env (env.limits.room st.stack.depth)) {} st

theorem evaluateScript_shown (env : Env Empty) (script : String) {st : State Empty}
    (h : st.pendingReturn = false) :
    Shown runView (env.evaluateScript script st) (env.judgeScript script st) := by
  rw [Env.evaluateScript, evaluateScript_eq_run, entry_eq]
  exact Script.run_shown (dispatchWith_shown env env.afresh _) _ {} h

theorem entry_keeps_flag (env : Env H) (st : State H) :
    (env.entry st).Keeps fun st => st.returnFlag = false := by
  rw [entry_eq]
  exact dispatchWith_keeps_flag env env.afresh _

end Env

end EmbeddedTcl
