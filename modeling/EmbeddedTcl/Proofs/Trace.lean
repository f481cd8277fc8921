import EmbeddedTcl.Proofs.Depth

/-!
# Traces

Every state that an evaluation passes through, in order. A trace is a list of moments, each with
the state right after one atomic change. `Path` says that consecutive states are one such change
apart, so a trace that is a path from the first state to the last leaves nothing out. What a single
`Step` keeps, every state of a run has.

Traces are given for interpreters without host commands.
-/

namespace EmbeddedTcl

variable {H α : Type}

/-! ## Moments -/

inductive Event (H : Type) where
  /-- A pending return was taken, put back or joined with another. -/
  | mark
  /-- A command was counted. -/
  | count
  /-- A command starts to run in the scope made for it. -/
  | call (handler : Handler H) (args : List String)
  /-- A running command changed the state. -/
  | act
  /-- The scope of a command was removed. -/
  | leave

/-- A state, with what led to it from the one before. -/
structure Moment (H : Type) where
  event : Event H
  state : State H

/-- One atomic change. Variables are assigned and linked at levels that exist, and links go to the
global scope only. -/
inductive Step : State H → Moment H → Prop where
  | mark (st : State H) (pending : Bool) : Step st ⟨.mark, { st with pendingReturn := pending }⟩
  | count (st : State H) : Step st ⟨.count, { st with commandCount := st.commandCount + 1 }⟩
  | call (st : State H) (handler : Handler H) (args : List String) (entry : LogEntry) :
      Step st ⟨.call handler args, (st.note entry).inside⟩
  | still (st : State H) : Step st ⟨.act, st⟩
  | assign {st : State H} {level : Nat} {name text : String} {stack : ScopeStack}
      (live : level < st.stack.depth) (set : st.stack.set level name text = .ok stack) :
      Step st ⟨.act, { st with stack }⟩
  | link {st : State H} {level : Nat} (live : level < st.stack.depth) (name : String) :
      Step st ⟨.act,
        { st.note (.linking name level) with stack := st.stack.link level name 0 none }⟩
  | write (st : State H) (text : String) : Step st ⟨.act, st.write text⟩
  | register (st : State H) (entry : LogEntry) (name : String) (p : Procedure) :
      Step st ⟨.act, (st.note entry).register name (.procedure p)⟩
  | raise (st : State H) : Step st ⟨.act, { st with returnFlag := true }⟩
  | leave {st : State H} (inner : 1 < st.stack.depth) : Step st ⟨.leave, st.leave⟩

/-- Steps one after the other, from a first state to a last. -/
inductive Path : State H → List (Moment H) → State H → Prop where
  | nil (st : State H) : Path st [] st
  | cons {st st' : State H} {m : Moment H} {more : List (Moment H)} (step : Step st m)
      (path : Path m.state more st') : Path st (m :: more) st'

namespace Path

theorem single {st : State H} {m : Moment H} (step : Step st m) : Path st [m] m.state :=
  .cons step (.nil _)

theorem append {s t u : State H} {front back : List (Moment H)} (h : Path s front t)
    (h' : Path t back u) : Path s (front ++ back) u := by
  induction h with
  | nil => exact h'
  | cons step _ ih => exact .cons step (ih h')

/-- What every step keeps, every state has that a path passes through. -/
theorem invariant {I : State H → Prop} (hstep : ∀ {st m}, Step st m → I st → I m.state)
    {s t : State H} {trace : List (Moment H)} (path : Path s trace t) (h : I s) :
    (∀ st ∈ s :: trace.map Moment.state, I st) ∧ I t := by
  induction path with
  | nil => exact ⟨by simpa using h, h⟩
  | cons step _ ih =>
      obtain ⟨hall, hlast⟩ := ih (hstep step h)
      exact ⟨List.forall_mem_cons.2 ⟨h, hall⟩, hlast⟩

end Path

/-! ## Reading and scripts -/

/-- What a trace goes on with after a success. -/
def Outcome.thenTrace (o : Outcome H α) (next : α → State H → List (Moment H)) :
    List (Moment H) :=
  match o with
  | (.ok value, st) => next value st
  | (.error _, _) => []

/-- The trace of a dispatch. -/
abbrev Tracer (H : Type) := List String → State H → List (Moment H)

section

variable (d : Dispatcher H) (t : Tracer H)

def traceEmbedded (words : List String) (st : State H) : List (Moment H) :=
  if words.isEmpty then []
  else
    ⟨.mark, { st with pendingReturn := false }⟩ :: t words { st with pendingReturn := false } ++
      Outcome.thenTrace (d words { st with pendingReturn := false }) fun completion st' =>
        [⟨.mark, { st' with pendingReturn := st.pendingReturn || completion.returning }⟩]

mutual

def Piece.trace : Piece → State H → List (Moment H)
  | .char _, _ => []
  | .escaped _, _ => []
  | .read _, _ => []
  | .command words, st =>
    traceWords words st ++ (evalWords d words st).thenTrace (traceEmbedded d t)

def traceWord : List Piece → State H → List (Moment H)
  | [], _ => []
  | piece :: more, st =>
    piece.trace st ++ (piece.eval d st).thenTrace fun _ st' => traceWord more st'

def traceWords : List (List Piece) → State H → List (Moment H)
  | [], _ => []
  | word :: more, st =>
    traceWord word st ++ (evalWord d word st).thenTrace fun _ st' => traceWords more st'

end

def Script.trace : Script → State H → List (Moment H)
  | .stop, _ => []
  | .broken m, st => traceWord d t m.before st
  | .command words more, st =>
    traceWords d t words st ++ (evalWords d words st).thenTrace fun texts st' =>
      ⟨.mark, { st' with pendingReturn := false }⟩ ::
        if texts.isEmpty then more.trace { st' with pendingReturn := false }
        else
          t texts { st' with pendingReturn := false } ++
            Outcome.thenTrace (d texts { st' with pendingReturn := false }) fun completion st'' =>
              if (completion.returningIf st'.pendingReturn).returning then []
              else more.trace st''

end

section

variable {d : Dispatcher H} {t : Tracer H}

/-- A property of the moments between two states that one stretch of a run hands on to the next, and
that holds where nothing but a pending return changes. -/
structure Stretches (P : State H → List (Moment H) → State H → Prop) : Prop where
  nil : ∀ st, P st [] st
  append : ∀ {s t u front back}, P s front t → P t back u → P s (front ++ back) u
  mark : ∀ st pending,
    P st [⟨.mark, { st with pendingReturn := pending }⟩] { st with pendingReturn := pending }

/-- Every dispatch that starts with no return pending has the property. -/
def Tracer.Has (t : Tracer H) (d : Dispatcher H)
    (P : State H → List (Moment H) → State H → Prop) : Prop :=
  ∀ words st, st.pendingReturn = false → P st (t words st) (d words st).2

section

variable {P : State H → List (Moment H) → State H → Prop} (hP : Stretches P)

include hP

theorem Stretches.cons {st t : State H} {pending : Bool} {more : List (Moment H)}
    (h : P { st with pendingReturn := pending } more t) :
    P st (⟨.mark, { st with pendingReturn := pending }⟩ :: more) t :=
  hP.append (hP.mark st pending) h

theorem Stretches.thenTrace {β : Type} {st : State H} {front : List (Moment H)}
    {o : Outcome H α} {next : α → State H → List (Moment H)} {f : α → State H → Outcome H β}
    (h : P st front o.2) (h' : ∀ value s, P s (next value s) (f value s).2) :
    P st (front ++ o.thenTrace next) (Outcome.andThen o f).2 := by
  rcases o with ⟨fault | value, s⟩
  · exact hP.append h (hP.nil _)
  · exact hP.append h (h' value s)

theorem traceEmbedded_has (ht : t.Has d P) (words : List String) (st : State H) :
    P st (traceEmbedded d t words st) (runEmbedded d words st).2 := by
  rw [traceEmbedded, runEmbedded]
  split
  · exact hP.nil st
  · exact hP.cons (hP.thenTrace (ht words _ rfl) fun completion s => hP.mark s _)

mutual

theorem Piece.trace_has (ht : t.Has d P) :
    ∀ (piece : Piece) (st : State H), P st (piece.trace d t st) (piece.eval d st).2
  | .char _, st => by
      rw [Piece.trace, Piece.eval]
      exact hP.nil st
  | .escaped _, st => by
      rw [Piece.trace, Piece.eval]
      exact hP.nil st
  | .read _, st => by
      rw [Piece.trace, Piece.eval]
      exact hP.nil st
  | .command words, st => by
      rw [Piece.trace, Piece.eval]
      exact hP.thenTrace (traceWords_has ht words st) (traceEmbedded_has hP ht)

theorem traceWord_has (ht : t.Has d P) :
    ∀ (word : List Piece) (st : State H), P st (traceWord d t word st) (evalWord d word st).2
  | [], st => by
      rw [traceWord, evalWord]
      exact hP.nil st
  | piece :: more, st => by
      rw [traceWord, evalWord]
      refine hP.thenTrace (piece.trace_has ht st) fun first s => ?_
      rw [Outcome.snd_map]
      exact traceWord_has ht more s

theorem traceWords_has (ht : t.Has d P) :
    ∀ (words : List (List Piece)) (st : State H),
      P st (traceWords d t words st) (evalWords d words st).2
  | [], st => by
      rw [traceWords, evalWords]
      exact hP.nil st
  | word :: more, st => by
      rw [traceWords, evalWords]
      refine hP.thenTrace (traceWord_has ht word st) fun first s => ?_
      rw [Outcome.snd_map]
      exact traceWords_has ht more s

end

/-- What holds of every dispatch holds of a script, if stretches of a run hand it on. -/
theorem Script.trace_has (ht : t.Has d P) (script : Script) :
    ∀ (last : Completion) (st : State H),
      P st (script.trace d t st) (script.run d last st).2 := by
  induction script with
  | stop =>
      intro last st
      exact hP.nil st
  | broken m =>
      intro last st
      rw [Script.trace, Script.run, Malformed.snd_raise]
      exact traceWord_has hP ht m.before st
  | command words more ih =>
      intro last st
      refine hP.thenTrace (traceWords_has hP ht words st) fun texts s => ?_
      refine hP.cons ?_
      split
      · exact ih last _
      · refine hP.thenTrace (ht texts _ rfl) fun completion s' => ?_
        split
        · exact hP.nil s'
        · exact ih completion s'

end

theorem Path.stretches : Stretches (Path : State H → List (Moment H) → State H → Prop) where
  nil := .nil
  append := .append
  mark st pending := .single (.mark st pending)

/-- A tracer that tells what a dispatcher passes through. -/
def Tracer.Follows (t : Tracer H) (d : Dispatcher H) : Prop :=
  ∀ words st, Path st (t words st) (d words st).2

theorem Script.trace_path (ht : t.Follows d) (script : Script) (last : Completion) (st : State H) :
    Path st (script.trace d t st) (script.run d last st).2 :=
  script.trace_has Path.stretches (fun words st _ => ht words st) last st

end

/-! ## Commands -/

/-- The states while parameters get their values. -/
def traceBind : List (String × String) → State H → List (Moment H)
  | [], _ => []
  | pair :: more, st =>
    let st' := { st with stack := st.stack.modify st.stack.top (·.assign pair.1 pair.2) }
    ⟨.act, st'⟩ :: traceBind more st'

/-- The states while names are linked to global ones. -/
def traceLinks : List String → State H → List (Moment H)
  | [], _ => []
  | name :: more, st =>
    let st' := Builtin.linkGlobals st [name]
    ⟨.act, st'⟩ :: traceLinks more st'

def Builtin.trace (b : Builtin) (args : List String) (st : State H) : List (Moment H) :=
  match b with
  | global => traceLinks args st
  | b => [⟨.act, (b.run args st).2⟩]

/-- Moments at which a running command changes the state by itself. -/
def Acts (trace : List (Moment H)) : Prop :=
  ∀ m ∈ trace, m.event = .act

theorem Acts.nil : Acts ([] : List (Moment H)) := by
  simp [Acts]

theorem Acts.cons {st : State H} {more : List (Moment H)} (h : Acts more) :
    Acts (⟨.act, st⟩ :: more) :=
  List.forall_mem_cons.2 ⟨rfl, h⟩

theorem traceBind_acts (pairs : List (String × String)) :
    ∀ st : State H, Acts (traceBind pairs st) := by
  induction pairs with
  | nil => exact fun _ => .nil
  | cons pair more ih => exact fun st => .cons (ih _)

theorem traceLinks_acts (names : List String) : ∀ st : State H, Acts (traceLinks names st) := by
  induction names with
  | nil => exact fun _ => .nil
  | cons name more ih => exact fun st => .cons (ih _)

theorem Builtin.trace_acts (b : Builtin) (args : List String) (st : State H) :
    Acts (b.trace args st) := by
  cases b with
  | global => exact traceLinks_acts args st
  | _ => exact .cons .nil

/-- The states of a command from its start on. -/
def Handler.trace (d : Dispatcher Empty) (t : Tracer Empty) (args : List String)
    (st : State Empty) : Handler Empty → List (Moment Empty)
  | builtin b => b.trace args st
  | procedure p =>
    traceBind (p.params.zip args) st ++
      (Script.ofString p.body).trace d t { st with stack := st.stack.bind p.params args }

def traceCall (env : Env Empty) (d : Dispatcher Empty) (t : Tracer Empty)
    (renewed : Evaluator Empty) (handler : Handler Empty) (args : List String) (st : State Empty) :
    List (Moment Empty) :=
  ⟨.call handler args, st.inside⟩ :: handler.trace d t args st.inside ++
    [⟨.leave, (callHandler env d renewed handler args st).2⟩]

def traceEnter (env : Env Empty) (renewed : Evaluator Empty)
    (inner : Option (Dispatcher Empty × Tracer Empty)) : Tracer Empty
  | [], _ => []
  | name :: args, st =>
    match st.commands.find? name with
    | none => []
    | some handler =>
      let st' := { st with commandCount := st.commandCount + 1 }
      ⟨.count, st'⟩ ::
        if st'.commandCount > env.limits.maxCommands then []
        else
          match inner with
          | none => []
          | some (d, t) =>
            traceCall env d t renewed handler args
              (st'.note (.dispatching name args st.stack.depth))

def traceWith (env : Env Empty) (renewed : Evaluator Empty) : (room : Nat) → Tracer Empty
  | 0 => traceEnter env renewed none
  | room + 1 =>
    traceEnter env renewed (some (dispatchWith env renewed room, traceWith env renewed room))

/-! ## Traces are complete -/

theorem traceBind_path (pairs : List (String × String)) :
    ∀ st : State H, st.stack.LinkFree st.stack.top →
      Path st (traceBind pairs st)
        { st with stack := st.stack.modify st.stack.top fun scope =>
            pairs.foldl (fun scope pair => scope.assign pair.1 pair.2) scope } := by
  induction pairs with
  | nil =>
      intro st _
      simp only [List.foldl_nil, ScopeStack.modify_id]
      exact .nil st
  | cons pair more ih =>
      intro st hfree
      have hlive := st.stack.top_lt_depth
      -- no name of this scope is a link, so the parameter is set right here
      have hset := ScopeStack.set_own pair.2 (hfree pair.1)
      have hpath := ih { st with stack := st.stack.modify st.stack.top (·.assign pair.1 pair.2) }
      simp only [ScopeStack.top_modify, ScopeStack.modify_modify] at hpath
      exact .cons (.assign hlive hset) (hpath (hfree.assign hlive _ _))

theorem traceLinks_path (names : List String) :
    ∀ st : State H, Path st (traceLinks names st) (Builtin.linkGlobals st names) := by
  induction names with
  | nil => exact fun st => .nil st
  | cons name more ih =>
      intro st
      exact .cons (.link st.stack.caller_lt_depth name) (ih _)

/-- Every built-in but `global` does what it does in one step. -/
theorem Builtin.Does.step {b : Builtin} {st : State H} {o : Outcome H String} (h : b.Does st o)
    (hb : b ≠ global) : Step st ⟨.act, o.2⟩ := by
  cases h with
  | fails => exact .still st
  | reads => exact .still st
  | assigns h => exact .assign st.stack.caller_lt_depth h
  | links => exact absurd rfl hb
  | writes text => exact .write st text
  | defines entry name p => exact .register st entry name p
  | returns => exact .raise st

theorem Builtin.trace_path (b : Builtin) (args : List String) (st : State H) :
    Path st (b.trace args st) (b.run args st).2 := by
  cases b with
  | global => exact traceLinks_path args st
  | _ => exact .single ((run_does _ args st).step (by decide))

section

variable (env : Env Empty) {d : Dispatcher Empty} {t : Tracer Empty} (renewed : Evaluator Empty)

theorem Handler.trace_path (ht : t.Follows d) (args : List String) {st : State Empty}
    (hfree : st.stack.LinkFree st.stack.top) (handler : Handler Empty) :
    Path st (handler.trace d t args st) (handler.run env d renewed args st).2 := by
  cases handler with
  | builtin b =>
      rw [Handler.run_builtin, Outcome.snd_map]
      exact b.trace_path args st
  | procedure p =>
      rw [Handler.run_procedure, Outcome.snd_map, evaluateScript_eq_run]
      exact (traceBind_path _ st hfree).append (Script.trace_path ht _ {} _)
  | host h => exact h.elim

theorem traceCall_path (hd : d.Balanced) (ht : t.Follows d) (handler : Handler Empty)
    (args : List String) (st : State Empty) (entry : LogEntry) :
    Path st (traceCall env d t renewed handler args (st.note entry))
      (callHandler env d renewed handler args (st.note entry)).2 := by
  let inside := (st.note entry).inside
  -- the handler leaves as many scopes as it found, so its own one is still there
  have hinner : 1 < (handler.run env d renewed args inside).2.stack.depth := by
    rw [handler.depth_run env hd renewed args inside]
    exact Nat.lt_add_of_pos_left (Nat.succ_pos _)
  have hfree : inside.stack.LinkFree inside.stack.top := .push st.stack
  have hpath := handler.trace_path env renewed ht args hfree
  rw [traceCall, callHandler_eq]
  exact .cons (.call st handler args entry) (hpath.append (.single (.leave hinner)))

theorem traceEnter_path (inner : Option (Dispatcher Empty × Tracer Empty))
    (h : ∀ p ∈ inner, p.1.Balanced ∧ p.2.Follows p.1) :
    (traceEnter env renewed inner).Follows (enter env renewed (inner.map Prod.fst)) := by
  intro words st
  cases words with
  | nil => exact .nil st
  | cons name args =>
      rw [traceEnter, enter]
      cases st.commands.find? name with
      | none => exact .nil st
      | some handler =>
          refine .cons (.count st) ?_
          dsimp only
          split
          · exact .nil _
          · cases inner with
            | none => exact .nil _
            | some p =>
                obtain ⟨hbalanced, hfollows⟩ := h p rfl
                exact traceCall_path env renewed hbalanced hfollows handler args _ _

/-- **A traced dispatch.** Every dispatch of built-ins and procedures is a path of single steps
through the states that its trace lists. -/
theorem traceWith_path (room : Nat) :
    (traceWith env renewed room).Follows (dispatchWith env renewed room) := by
  induction room with
  | zero => exact traceEnter_path env renewed none (by simp)
  | succ room ih =>
      refine traceEnter_path env renewed
        (some (dispatchWith env renewed room, traceWith env renewed room)) ?_
      rintro p ⟨⟩
      exact ⟨dispatchWith_balanced env renewed room, ih⟩

end

/-! ## From the outside -/

namespace Env

/-- Evaluates in an interpreter that has taken the place of the one at work. -/
def afresh (env : Env H) : Evaluator H :=
  match env.maxReplaced with
  | 0 => fun _ st => (.error .replacedTooOften, st)
  | replaced + 1 => fun script st =>
    EmbeddedTcl.evaluate (env.dispatcher replaced (env.limits.room st.stack.depth)) script st

theorem entry_eq (env : Env H) (st : State H) :
    env.entry st = dispatchWith env env.afresh (env.limits.room st.stack.depth) := by
  unfold entry afresh
  cases env.maxReplaced <;> rfl

theorem evaluate_eq (env : Env H) (script : String) (st : State H) :
    env.evaluate script st =
      Outcome.map Completion.value (env.evaluateScript script { st with pendingReturn := false }) := by
  rw [Env.evaluate, Env.evaluateScript, evaluate_eq_run, evaluateScript_eq_run]
  rfl

variable (env : Env Empty)

def traceDispatch : Tracer Empty := fun words st =>
  traceWith env env.afresh (env.limits.room st.stack.depth) words st

def traceScript (script : String) (st : State Empty) : List (Moment Empty) :=
  (Script.ofString script).trace (env.entry st)
    (traceWith env env.afresh (env.limits.room st.stack.depth)) st

def traceEvaluate (script : String) (st : State Empty) : List (Moment Empty) :=
  ⟨.mark, { st with pendingReturn := false }⟩ ::
    env.traceScript script { st with pendingReturn := false }

theorem traceDispatch_path : Tracer.Follows env.traceDispatch env.dispatch := by
  intro words st
  rw [Env.dispatch, entry_eq]
  exact traceWith_path env env.afresh _ words st

theorem traceScript_path (script : String) (st : State Empty) :
    Path st (env.traceScript script st) (env.evaluateScript script st).2 := by
  rw [Env.evaluateScript, evaluateScript_eq_run]
  refine Script.trace_path ?_ _ {} st
  rw [entry_eq]
  exact traceWith_path env env.afresh _

theorem traceEvaluate_path (script : String) (st : State Empty) :
    Path st (env.traceEvaluate script st) (env.evaluate script st).2 := by
  rw [evaluate_eq, Outcome.snd_map]
  exact .cons (.mark st false) (env.traceScript_path script _)

end Env

end EmbeddedTcl
