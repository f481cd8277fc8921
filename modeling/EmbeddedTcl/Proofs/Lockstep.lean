import EmbeddedTcl.Interp.Dispatch
import EmbeddedTcl.Proofs.ParseFirst

/-!
# Evaluation in lockstep

Two evaluations of the same trees from two states. If a relation between the states fixes what
evaluation can see of them, and two dispatchers keep it, then the evaluations give the same values
and faults and keep it too. One of the two may be cut off by a fault on the way. With one state on
both sides this is the induction principle for whatever a dispatcher leaves alone.
-/

namespace EmbeddedTcl

variable {H H' α β : Type} {R : State H → State H' → Prop}

/-- A relation between states that fixes what evaluation sees of them by itself: the values of
variables and a return that is pending. -/
structure Lockstep (R : State H → State H' → Prop) : Prop where
  pending_eq : ∀ {s s'}, R s s' → s.pendingReturn = s'.pendingReturn
  lookup_eq : ∀ {s s'} (name : String), R s s' → s.lookup name = s'.lookup name
  mark : ∀ {s s'} (pending : Bool), R s s' →
    R { s with pendingReturn := pending } { s' with pendingReturn := pending }

/-- The same value or fault, in related states. -/
def Outcome.Agree (R : State H → State H' → Prop) (o : Outcome H α) (o' : Outcome H' α) : Prop :=
  o.1 = o'.1 ∧ R o.2 o'.2

/-- Two dispatchers that do the same in related states with no return pending. -/
def Dispatchers.Agree (R : State H → State H' → Prop) (d : Dispatcher H) (d' : Dispatcher H') :
    Prop :=
  ∀ words s s', R s s' → s.pendingReturn = false → Outcome.Agree R (d words s) (d' words s')

/-- The same value or fault in related states, unless the first outcome is a fault that cuts it off
before the second. -/
def Outcome.AgreeUnless (cut : Fault → State H → Prop) (R : State H → State H' → Prop)
    (o : Outcome H α) (o' : Outcome H' α) : Prop :=
  Agree R o o' ∨ ∃ fault, o.1 = .error fault ∧ cut fault o.2

def Dispatchers.AgreeUnless (cut : Fault → State H → Prop) (R : State H → State H' → Prop)
    (d : Dispatcher H) (d' : Dispatcher H') : Prop :=
  ∀ words s s', R s s' → s.pendingReturn = false →
    Outcome.AgreeUnless cut R (d words s) (d' words s')

namespace Outcome.AgreeUnless

variable {cut : Fault → State H → Prop}

theorem pure {s : State H} {s' : State H'} (h : R s s') (value : Except Fault α) :
    AgreeUnless cut R (value, s) (value, s') :=
  .inl ⟨rfl, h⟩

theorem andThen {o : Outcome H α} {o' : Outcome H' α} {f : α → State H → Outcome H β}
    {f' : α → State H' → Outcome H' β} (h : AgreeUnless cut R o o')
    (next : ∀ value s s', R s s' → AgreeUnless cut R (f value s) (f' value s')) :
    AgreeUnless cut R (Outcome.andThen o f) (Outcome.andThen o' f') := by
  obtain ⟨value, s⟩ := o
  obtain ⟨value', s'⟩ := o'
  rcases h with ⟨rfl, hR⟩ | ⟨fault, rfl, hcut⟩
  · cases value with
    | error fault => exact .pure hR _
    | ok value => exact next value s s' hR
  -- a fault that cuts off stays, whatever was to come
  · exact .inr ⟨fault, rfl, hcut⟩

theorem map {o : Outcome H α} {o' : Outcome H' α} (h : AgreeUnless cut R o o') (f : α → β) :
    AgreeUnless cut R (Outcome.map f o) (Outcome.map f o') :=
  h.andThen fun value _ _ hR => pure hR (.ok (f value))

end Outcome.AgreeUnless

section

variable {cut : Fault → State H → Prop} {d : Dispatcher H} {d' : Dispatcher H'}

theorem runEmbedded_agreeUnless (L : Lockstep R) (hd : Dispatchers.AgreeUnless cut R d d')
    {s : State H} {s' : State H'} (h : R s s') (words : List String) :
    Outcome.AgreeUnless cut R (runEmbedded d words s) (runEmbedded d' words s') := by
  rw [runEmbedded, runEmbedded]
  split
  · exact .pure h _
  · refine (hd words _ _ (L.mark false h) rfl).andThen fun completion t t' ht => ?_
    rw [L.pending_eq h]
    exact .pure (L.mark _ ht) _

mutual

theorem Piece.eval_agreeUnless (L : Lockstep R) (hd : Dispatchers.AgreeUnless cut R d d') :
    ∀ (piece : Piece) {s : State H} {s' : State H'}, R s s' →
      Outcome.AgreeUnless cut R (piece.eval d s) (piece.eval d' s')
  | .char c, _, _, h => by
      rw [Piece.eval, Piece.eval]
      exact .pure h _
  | .escaped value, _, _, h => by
      rw [Piece.eval, Piece.eval]
      exact .pure h _
  | .read name, _, _, h => by
      rw [Piece.eval, Piece.eval, L.lookup_eq name h]
      exact .pure h _
  | .command words, _, _, h => by
      rw [Piece.eval, Piece.eval]
      exact (evalWords_agreeUnless L hd words h).andThen fun texts _ _ h' =>
        runEmbedded_agreeUnless L hd h' texts

theorem evalWord_agreeUnless (L : Lockstep R) (hd : Dispatchers.AgreeUnless cut R d d') :
    ∀ (word : List Piece) {s : State H} {s' : State H'}, R s s' →
      Outcome.AgreeUnless cut R (evalWord d word s) (evalWord d' word s')
  | [], _, _, h => by
      rw [evalWord, evalWord]
      exact .pure h _
  | piece :: more, _, _, h => by
      rw [evalWord, evalWord]
      exact (Piece.eval_agreeUnless L hd piece h).andThen fun first _ _ h' =>
        (evalWord_agreeUnless L hd more h').map _

theorem evalWords_agreeUnless (L : Lockstep R) (hd : Dispatchers.AgreeUnless cut R d d') :
    ∀ (words : List (List Piece)) {s : State H} {s' : State H'}, R s s' →
      Outcome.AgreeUnless cut R (evalWords d words s) (evalWords d' words s')
  | [], _, _, h => by
      rw [evalWords, evalWords]
      exact .pure h _
  | word :: more, _, _, h => by
      rw [evalWords, evalWords]
      exact (evalWord_agreeUnless L hd word h).andThen fun first _ _ h' =>
        (evalWords_agreeUnless L hd more h').map _

end

theorem Malformed.raise_agreeUnless (L : Lockstep R) (hd : Dispatchers.AgreeUnless cut R d d')
    (m : Malformed) {s : State H} {s' : State H'} (h : R s s') :
    Outcome.AgreeUnless cut R (m.raise d s : Outcome H α) (m.raise d' s') :=
  (evalWord_agreeUnless L hd m.before h).andThen fun _ _ _ h' => .pure h' _

theorem Script.run_agreeUnless (L : Lockstep R) (hd : Dispatchers.AgreeUnless cut R d d')
    (script : Script) :
    ∀ (last : Completion) {s : State H} {s' : State H'}, R s s' →
      Outcome.AgreeUnless cut R (script.run d last s) (script.run d' last s') := by
  induction script with
  | stop =>
      intro last s s' h
      exact .pure h _
  | broken m =>
      intro last s s' h
      exact m.raise_agreeUnless L hd h
  | command words more ih =>
      intro last s s' h
      refine (evalWords_agreeUnless L hd words h).andThen ?_
      intro texts t t' ht
      have hclear := L.mark false ht
      split
      · exact ih last hclear
      -- both sides see the same marker before they clear it
      · rw [L.pending_eq ht]
        refine (hd texts _ _ hclear rfl).andThen ?_
        intro completion u u' hu
        split
        · exact .pure hu _
        · exact ih completion hu

end

/-! ## Dispatch -/

/-- The state in which a command has been counted. -/
def State.counted (st : State H) : State H :=
  { st with commandCount := st.commandCount + 1 }

/-- Goes on with a command that has been counted: into the scope made for it, if there may be one
more. -/
def Env.proceed (env : Env H) (renewed : Evaluator H) (inner : Option (Dispatcher H))
    (name : String) (args : List String) (handler : Handler H) (st : State H) :
    Outcome H Completion :=
  match inner with
  | none => (.error (.script env.limits.depthError), st)
  | some d =>
    callHandler env d renewed handler args (st.note (.dispatching name args st.stack.depth))

theorem enter_cons (env : Env H) (renewed : Evaluator H) (inner : Option (Dispatcher H))
    (name : String) (args : List String) (st : State H) :
    enter env renewed inner (name :: args) st =
      match st.commands.find? name with
      | none => (.error (.script (.unknownCommand name)), st)
      | some handler =>
        if st.counted.commandCount > env.limits.maxCommands then
          (.error (.script env.limits.commandsError), st.counted)
        else env.proceed renewed inner name args handler st.counted := by
  rw [enter]
  rfl

/-- Two dispatches go the same way as long as both find the same commands and counts. What is left
to show is that they agree where the count is too high, and from where they go on. -/
theorem enter_agreeUnless {cut : Fault → State H → Prop} {R : State H → State H → Prop}
    (env : Env H) (renewed : Evaluator H) {inner inner' : Option (Dispatcher H)}
    (words : List String) {s s' : State H} (h : R s s') (hcommands : s.commands = s'.commands)
    (hcount : s.commandCount = s'.commandCount)
    (hover : s.counted.commandCount > env.limits.maxCommands →
      Outcome.AgreeUnless cut R (.error (.script env.limits.commandsError), s.counted)
        ((.error (.script env.limits.commandsError), s'.counted) : Outcome H Completion))
    (hproceed : ¬ s.counted.commandCount > env.limits.maxCommands → ∀ name args handler,
      words = name :: args → s.commands.find? name = some handler →
        Outcome.AgreeUnless cut R (env.proceed renewed inner name args handler s.counted)
          (env.proceed renewed inner' name args handler s'.counted)) :
    Outcome.AgreeUnless cut R (enter env renewed inner words s)
      (enter env renewed inner' words s') := by
  cases words with
  | nil => exact .pure h _
  | cons name args =>
      have hcount' : s.counted.commandCount = s'.counted.commandCount :=
        congrArg (· + 1) hcount
      rw [enter_cons, enter_cons, ← hcommands, ← hcount']
      cases hfind : s.commands.find? name with
      | none => exact .pure h _
      | some handler =>
          dsimp only
          split
          · rename_i hlimit
            exact hover hlimit
          · rename_i hlimit
            exact hproceed hlimit name args handler rfl hfind

/-! ## With nothing that cuts off -/

theorem Outcome.AgreeUnless.agree {o : Outcome H α} {o' : Outcome H' α}
    (h : AgreeUnless (fun _ _ => False) R o o') : Agree R o o' := by
  rcases h with h | ⟨_, _, hfalse⟩
  · exact h
  · exact hfalse.elim

theorem Outcome.Agree.map {o : Outcome H α} {o' : Outcome H' α} (h : Agree R o o') (f : α → β) :
    Agree R (Outcome.map f o) (Outcome.map f o') :=
  ((AgreeUnless.map (.inl h) f).agree)

theorem Dispatchers.Agree.unless {d : Dispatcher H} {d' : Dispatcher H'} (hd : Agree R d d')
    (cut : Fault → State H → Prop) : AgreeUnless cut R d d' :=
  fun words s s' h hp => .inl (hd words s s' h hp)

section

variable {d : Dispatcher H} {d' : Dispatcher H'}

theorem evalWords_agree (L : Lockstep R) (hd : Dispatchers.Agree R d d')
    (words : List (List Piece)) {s : State H} {s' : State H'} (h : R s s') :
    Outcome.Agree R (evalWords d words s) (evalWords d' words s') :=
  (evalWords_agreeUnless L (hd.unless _) words h).agree

theorem Malformed.raise_agree (L : Lockstep R) (hd : Dispatchers.Agree R d d') (m : Malformed)
    {s : State H} {s' : State H'} (h : R s s') :
    Outcome.Agree R (m.raise d s : Outcome H α) (m.raise d' s') :=
  (m.raise_agreeUnless L (hd.unless _) h).agree

theorem Script.run_agree (L : Lockstep R) (hd : Dispatchers.Agree R d d') (script : Script)
    (last : Completion) {s : State H} {s' : State H'} (h : R s s') :
    Outcome.Agree R (script.run d last s) (script.run d' last s') :=
  (script.run_agreeUnless L (hd.unless _) last h).agree

theorem evaluateScript_agree (L : Lockstep R) (hd : Dispatchers.Agree R d d') (script : String)
    {s : State H} {s' : State H'} (h : R s s') :
    Outcome.Agree R (evaluateScript d script s) (evaluateScript d' script s') := by
  rw [evaluateScript_eq_run, evaluateScript_eq_run]
  exact Script.run_agree L hd _ {} h

theorem evaluate_agree (L : Lockstep R) (hd : Dispatchers.Agree R d d') (script : String)
    {s : State H} {s' : State H'} (h : R s s') :
    Outcome.Agree R (evaluate d script s) (evaluate d' script s') := by
  rw [evaluate_eq_run, evaluate_eq_run]
  exact (Script.run_agree L hd _ {} (L.mark false h)).map _

end

/-! ## One state on both sides -/

/-- A property of states that a pending return does not touch. -/
def Unmarked (I : State H → Prop) : Prop :=
  ∀ st pending, I st → I { st with pendingReturn := pending }

/-- A property that a dispatcher keeps, wherever it is called with no return pending. -/
def Dispatcher.Keeps (d : Dispatcher H) (I : State H → Prop) : Prop :=
  ∀ words st, I st → st.pendingReturn = false → I (d words st).2

variable {I : State H → Prop}

theorem Unmarked.lockstep (hI : Unmarked I) : Lockstep fun s s' : State H => s = s' ∧ I s where
  pending_eq := by
    rintro s _ ⟨rfl, _⟩
    rfl
  lookup_eq := by
    rintro s _ name ⟨rfl, _⟩
    rfl
  mark := by
    rintro s _ pending ⟨rfl, h⟩
    exact ⟨rfl, hI s pending h⟩

theorem Outcome.Agree.eq {o o' : Outcome H α} (h : Agree (fun s s' => s = s' ∧ I s) o o') :
    o = o' :=
  Prod.ext h.1 h.2.1

theorem Dispatcher.Keeps.agree {d : Dispatcher H} (h : d.Keeps I) :
    Dispatchers.Agree (fun s s' : State H => s = s' ∧ I s) d d := by
  rintro words s _ ⟨rfl, hs⟩ hp
  exact ⟨rfl, rfl, h words s hs hp⟩

section

variable {d : Dispatcher H} (hI : Unmarked I) (hd : d.Keeps I)

include hI hd

theorem Script.run_keeps (script : Script) (last : Completion) {st : State H} (h : I st) :
    I (script.run d last st).2 :=
  (script.run_agree hI.lockstep hd.agree last ⟨rfl, h⟩).2.2

theorem evaluateScript_keeps (script : String) {st : State H} (h : I st) :
    I (evaluateScript d script st).2 :=
  (evaluateScript_agree hI.lockstep hd.agree script ⟨rfl, h⟩).2.2

theorem evaluate_keeps (script : String) {st : State H} (h : I st) : I (evaluate d script st).2 :=
  (evaluate_agree hI.lockstep hd.agree script ⟨rfl, h⟩).2.2

end

end EmbeddedTcl
