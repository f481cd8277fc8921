import EmbeddedTcl.Proofs.Depth
import EmbeddedTcl.Proofs.Reader

/-!
# A machine

An evaluation as single steps of a machine that has no recursion of its own: it reads, and what it
reads asks for the values of variables and for commands to be run. A procedure call puts the reader
of its caller aside and starts another one on the body.

Two things carry a run to its end. Between two calls the text runs out. A call starts on a new text,
and is paid for with one of the commands that the limit still allows.
-/

namespace EmbeddedTcl

/-! ## The machine -/

/-- A reader that waits for a command to end, and whether a return was pending in the words of that
command. -/
structure Caller where
  reader : Reader
  pending : Bool

/-- `callers` are those of the procedures in progress, innermost first. -/
inductive Machine where
  | reading (r : Reader) (callers : List Caller) (st : State Empty)
  | ending (completion : Completion) (callers : List Caller) (st : State Empty)
  | failing (fault : Fault) (callers : List Caller) (st : State Empty)
  | halted (outcome : Outcome Empty Completion)

namespace Machine

def start (script : String) (st : State Empty) : Machine :=
  .reading (.start script) [] { st with pendingReturn := false }

/-- Goes on where a command was to be run. A command of the script may end it; the value of an
embedded one goes into the word around it. -/
def deliver (completion : Completion) (caller : Caller) (callers : List Caller)
    (st : State Empty) : Machine :=
  if caller.reader.tasks.isEmpty then
    if (completion.returningIf caller.pending).returning then
      .ending (completion.returningIf caller.pending) callers st
    else .reading { caller.reader with last := completion } callers st
  else
    .reading (caller.reader.hand completion.value.toList) callers
      { st with pendingReturn := caller.pending || completion.returning }

def answer (caller : Caller) (callers : List Caller) : Outcome Empty Completion → Machine
  | (.ok completion, st) => deliver completion caller callers st
  | (.error fault, st) => .failing fault callers st

/-- Starts a command in the scope made for it. -/
def invoke (args : List String) (caller : Caller) (callers : List Caller) (st : State Empty) :
    Handler Empty → Machine
  | .builtin b =>
    let o := b.run args st
    answer caller callers (o.1.map fun text => ⟨text, o.2.returnFlag⟩, o.2.leave)
  | .procedure p =>
    .reading (.start p.body) (caller :: callers) { st with stack := st.stack.bind p.params args }

/-- Runs a command for a reader. -/
def call (limits : Limits) (words : List String) (caller : Caller) (callers : List Caller)
    (st : State Empty) : Machine :=
  match words with
  | [] => .failing .noWords callers st
  | name :: args =>
    match st.commands.find? name with
    | none => .failing (.script (.unknownCommand name)) callers st
    | some handler =>
      if st.counted.commandCount > limits.maxCommands then
        .failing (.script limits.commandsError) callers st.counted
      else if limits.maxDepth ≤ st.stack.depth then
        .failing (.script limits.depthError) callers st.counted
      else
        invoke args caller callers
          (st.counted.note (.dispatching name args st.stack.depth)).inside handler

/-- An empty command does nothing. -/
def perform (limits : Limits) (words : List String) (r : Reader) (callers : List Caller)
    (st : State Empty) : Machine :=
  if words.isEmpty then
    if r.tasks.isEmpty then .reading r callers { st with pendingReturn := false }
    else .reading (r.hand []) callers st
  else call limits words ⟨r, st.pendingReturn⟩ callers { st with pendingReturn := false }

def act (limits : Limits) (callers : List Caller) (st : State Empty) : Action → Machine
  | .go r => .reading r callers st
  | .lookup name r =>
    match st.lookup name with
    | .ok text => .reading (r.hand text.toList) callers st
    | .error fault => .failing fault callers st
  | .run words r => perform limits words r callers st
  | .fail error => .failing (.script error) callers st
  | .finish completion => .ending completion callers st

/-- One step. The scope of a procedure is gone when its body ends, however it ends. -/
def step (limits : Limits) : Machine → Machine
  | reading r callers st => act limits callers st r.step
  | ending completion [] st => .halted (.ok completion, st)
  | ending completion (caller :: callers) st =>
    deliver ⟨completion.value, st.returnFlag⟩ caller callers st.leave
  | failing fault [] st => .halted (.error fault, st)
  | failing fault (_ :: callers) st => .failing fault callers st.leave
  | halted outcome => .halted outcome

/-- The machine after a number of steps. -/
def run (limits : Limits) : Nat → Machine → Machine
  | 0, m => m
  | n + 1, m => run limits n (m.step limits)

/-! ## What a step can do -/

/-- One more command is counted, and the limit allows it. -/
def Counts (limits : Limits) (st st' : State Empty) : Prop :=
  st'.commandCount = st.commandCount + 1 ∧ (st'.commandCount : Int) ≤ limits.maxCommands

/-- Everything that a step can do to readers, callers and the count of commands. -/
inductive Move (limits : Limits) : Machine → Machine → Prop where
  | read {r r' : Reader} {callers : List Caller} {st st' : State Empty} (ahead : r.Advances r')
      (same : st'.commandCount = st.commandCount) :
      Move limits (reading r callers st) (reading r' callers st')
  | finish {r : Reader} {callers : List Caller} {st : State Empty} {completion : Completion} :
      Move limits (reading r callers st) (ending completion callers st)
  | fail {r : Reader} {callers : List Caller} {st st' : State Empty} {fault : Fault}
      (once : st'.commandCount = st.commandCount ∨ st'.commandCount = st.commandCount + 1) :
      Move limits (reading r callers st) (failing fault callers st')
  | builtin {r r' : Reader} {callers : List Caller} {st st' : State Empty}
      (ahead : r.Advances r') (counts : Counts limits st st') :
      Move limits (reading r callers st) (reading r' callers st')
  | builtinReturn {r : Reader} {callers : List Caller} {st st' : State Empty}
      {completion : Completion} (counts : Counts limits st st') :
      Move limits (reading r callers st) (ending completion callers st')
  | procedure {r : Reader} {caller : Caller} {callers : List Caller} {st st' : State Empty}
      {text : String} (ahead : r.Advances caller.reader) (counts : Counts limits st st') :
      Move limits (reading r callers st) (reading (.start text) (caller :: callers) st')
  | resume {completion : Completion} {caller : Caller} {callers : List Caller} {r : Reader}
      {st st' : State Empty} (text_eq : r.text = caller.reader.text)
      (rest_eq : r.rest = caller.reader.rest) (weight_eq : r.weight = caller.reader.weight)
      (same : st'.commandCount = st.commandCount) :
      Move limits (ending completion (caller :: callers) st) (reading r callers st')
  | passOn {completion completion' : Completion} {caller : Caller} {callers : List Caller}
      {st st' : State Empty} (same : st'.commandCount = st.commandCount) :
      Move limits (ending completion (caller :: callers) st) (ending completion' callers st')
  | unwind {fault : Fault} {caller : Caller} {callers : List Caller} {st st' : State Empty}
      (same : st'.commandCount = st.commandCount) :
      Move limits (failing fault (caller :: callers) st) (failing fault callers st')
  | succeed {completion : Completion} {st : State Empty} :
      Move limits (ending completion [] st) (halted (.ok completion, st))
  | giveUp {fault : Fault} {st : State Empty} :
      Move limits (failing fault [] st) (halted (.error fault, st))
  | rest {outcome : Outcome Empty Completion} : Move limits (halted outcome) (halted outcome)

theorem invoke_moves {limits : Limits} {r r' : Reader} (ahead : r.Advances r') (pending : Bool)
    (callers : List Caller) (args : List String) {st st' : State Empty}
    (counts : Counts limits st st') (handler : Handler Empty) :
    Move limits (reading r callers st) (invoke args ⟨r', pending⟩ callers st' handler) := by
  cases handler with
  | builtin b =>
      have hcount := (b.run_does args st').commandCount
      simp only [invoke]
      generalize b.run args st' = o at hcount
      have counts' : Counts limits st o.2.leave := by
        rwa [Counts, show o.2.leave.commandCount = st'.commandCount from hcount]
      rcases o with ⟨fault | text, st''⟩
      · exact .fail (.inr counts'.1)
      · simp only [Except.map, answer, deliver]
        split
        · split
          · exact .builtinReturn counts'
          · exact .builtin ⟨ahead.text_eq, ahead.suffix, ahead.progress⟩ counts'
        · exact .builtin (ahead.hand _) counts'
  | procedure p => exact .procedure ahead counts
  | host h => exact h.elim

theorem call_moves {limits : Limits} (words : List String) {r r' : Reader}
    (ahead : r.Advances r') (pending : Bool) (callers : List Caller) {st st' : State Empty}
    (same : st'.commandCount = st.commandCount) :
    Move limits (reading r callers st) (call limits words ⟨r', pending⟩ callers st') := by
  cases words with
  | nil => exact .fail (.inl same)
  | cons name args =>
      rw [call]
      cases st'.commands.find? name with
      | none => exact .fail (.inl same)
      | some handler =>
          have hcounted : st'.counted.commandCount = st.commandCount + 1 :=
            congrArg (· + 1) same
          dsimp only
          split
          · exact .fail (.inr hcounted)
          split
          · exact .fail (.inr hcounted)
          · rename_i hlimit _
            have counts : Counts limits st
                (st'.counted.note (.dispatching name args st'.stack.depth)).inside :=
              ⟨hcounted, Int.not_lt.1 hlimit⟩
            exact invoke_moves ahead pending callers args counts handler

theorem step_moves (limits : Limits) (m : Machine) : Move limits m (m.step limits) := by
  match m with
  | reading r callers st =>
      have ahead := r.step_ahead
      rw [step]
      cases haction : r.step with
      | go r' =>
          rw [haction] at ahead
          exact .read ahead rfl
      | lookup name r' =>
          rw [haction] at ahead
          rw [act]
          split
          · exact .read (ahead.hand _) rfl
          · exact .fail (.inl rfl)
      | run words r' =>
          rw [haction] at ahead
          rw [act, perform]
          split
          · split
            · exact .read ahead rfl
            · exact .read (ahead.hand []) rfl
          · exact call_moves words ahead _ callers rfl
      | fail error => exact .fail (.inl rfl)
      | finish completion => exact .finish
  | ending completion [] st => exact .succeed
  | ending completion (caller :: callers) st =>
      rw [step, deliver]
      split
      · split
        · exact .passOn rfl
        · exact .resume rfl rfl rfl rfl
      · exact .resume rfl rfl (Reader.weight_hand ..) rfl
  | failing fault [] st => exact .giveUp
  | failing fault (caller :: callers) st => exact .unwind rfl
  | halted outcome => exact .rest

/-! ## What runs keep -/

theorem run_invariant {limits : Limits} {I : Machine → Prop}
    (hmove : ∀ {m m'}, Move limits m m' → I m → I m') (n : Nat) :
    ∀ {m : Machine}, I m → I (m.run limits n) := by
  induction n with
  | zero => exact fun h => h
  | succ n ih => exact fun h => ih (hmove (step_moves limits _) h)

/-- All readers, the one at work first. -/
def readers : Machine → List Reader
  | reading r callers _ => r :: callers.map Caller.reader
  | ending _ callers _ => callers.map Caller.reader
  | failing _ callers _ => callers.map Caller.reader
  | halted _ => []

def state : Machine → State Empty
  | reading _ _ st => st
  | ending _ _ st => st
  | failing _ _ st => st
  | halted outcome => outcome.2

/-- What is left to read is the end of the text that is read. -/
def InText (m : Machine) : Prop :=
  ∀ r ∈ m.readers, r.rest <:+ r.text

theorem Move.inText {limits : Limits} {m m' : Machine} (move : Move limits m m')
    (h : m.InText) : m'.InText := by
  have advance : ∀ {r r' : Reader}, r.Advances r' → r.rest <:+ r.text → r'.rest <:+ r'.text := by
    intro r r' ahead hr
    rw [ahead.text_eq]
    exact ahead.suffix.trans hr
  cases move with
  | read ahead _ =>
      obtain ⟨hr, hcallers⟩ := List.forall_mem_cons.1 h
      exact List.forall_mem_cons.2 ⟨advance ahead hr, hcallers⟩
  | finish => exact (List.forall_mem_cons.1 h).2
  | fail _ => exact (List.forall_mem_cons.1 h).2
  | builtin ahead _ =>
      obtain ⟨hr, hcallers⟩ := List.forall_mem_cons.1 h
      exact List.forall_mem_cons.2 ⟨advance ahead hr, hcallers⟩
  | builtinReturn _ => exact (List.forall_mem_cons.1 h).2
  | procedure ahead _ =>
      obtain ⟨hr, hcallers⟩ := List.forall_mem_cons.1 h
      refine List.forall_mem_cons.2 ⟨List.suffix_rfl, ?_⟩
      exact List.forall_mem_cons.2 ⟨advance ahead hr, hcallers⟩
  | resume text_eq rest_eq _ _ =>
      obtain ⟨hr, hcallers⟩ := List.forall_mem_cons.1 h
      refine List.forall_mem_cons.2 ⟨?_, hcallers⟩
      rw [text_eq, rest_eq]
      exact hr
  | passOn _ => exact (List.forall_mem_cons.1 h).2
  | unwind _ => exact (List.forall_mem_cons.1 h).2
  | succeed => exact h
  | giveUp => exact h
  | rest => exact h

/-- No more than `most` commands were counted, and a run that counted one more is failing. -/
def CountsAtMost (most : Nat) : Machine → Prop
  | reading _ _ st => st.commandCount ≤ most
  | ending _ _ st => st.commandCount ≤ most
  | failing _ _ st => st.commandCount ≤ most + 1
  | halted outcome => outcome.2.commandCount ≤ most + 1

theorem Move.countsAtMost {limits : Limits} {most : Nat} (hmost : limits.maxCommands ≤ most)
    {m m' : Machine} (move : Move limits m m') (h : m.CountsAtMost most) :
    m'.CountsAtMost most := by
  have allowed : ∀ {st st' : State Empty}, Counts limits st st' → st'.commandCount ≤ most :=
    fun counts => Int.ofNat_le.1 (Int.le_trans counts.2 hmost)
  cases move with
  | read _ same => exact Nat.le_trans (Nat.le_of_eq same) h
  | finish => exact h
  | fail once =>
      simp only [CountsAtMost] at *
      omega
  | builtin _ counts => exact allowed counts
  | builtinReturn counts => exact allowed counts
  | procedure _ counts => exact allowed counts
  | resume _ _ _ same => exact Nat.le_trans (Nat.le_of_eq same) h
  | passOn same => exact Nat.le_trans (Nat.le_of_eq same) h
  | unwind same => exact Nat.le_trans (Nat.le_of_eq same) h
  | succeed => exact Nat.le_succ_of_le h
  | giveUp => exact h
  | rest => exact h

/-! ## Every run halts -/

def waiting (callers : List Caller) : Nat :=
  (callers.map fun caller => caller.reader.work + 3).sum

/-- How many steps may be made before another command is counted. -/
def work : Machine → Nat
  | reading r callers _ => r.work + 2 + waiting callers
  | ending _ callers _ => 1 + waiting callers
  | failing _ callers _ => 1 + waiting callers
  | halted _ => 0

/-- How many commands may still be counted, and how much there is to do up to the next one. -/
def measure (limits : Limits) (m : Machine) : Nat × Nat :=
  ((limits.maxCommands - m.state.commandCount).toNat, m.work)

theorem waiting_cons (caller : Caller) (callers : List Caller) :
    waiting (caller :: callers) = caller.reader.work + 3 + waiting callers := by
  simp [waiting]

def isHalted : Machine → Bool
  | halted _ => true
  | _ => false

/-- As long as no command is given back, less to do is nearer to the end. -/
theorem measure_lt_of_work {limits : Limits} {m m' : Machine}
    (hcount : m.state.commandCount ≤ m'.state.commandCount) (hwork : m'.work < m.work) :
    Prod.Lex (· < ·) (· < ·) (m'.measure limits) (m.measure limits) :=
  Prod.Lex.right' (· < ·) (by omega) hwork

/-- **Each step gets a run nearer to its end.** A call may bring more to do, and costs a command. -/
theorem Move.decreases {limits : Limits} {m m' : Machine} (move : Move limits m m')
    (h : m.isHalted = false) :
    Prod.Lex (· < ·) (· < ·) (m'.measure limits) (m.measure limits) := by
  have spend : ∀ {st st' : State Empty}, Counts limits st st' →
      (limits.maxCommands - st'.commandCount).toNat <
        (limits.maxCommands - st.commandCount).toNat := by
    intro st st' ⟨heq, hle⟩
    omega
  cases move with
  | read ahead same =>
      have hless := ahead.work_lt
      refine measure_lt_of_work (Nat.le_of_eq same.symm) ?_
      simp only [work]
      omega
  | finish =>
      refine measure_lt_of_work (Nat.le_refl _) ?_
      simp only [work]
      omega
  | fail once =>
      refine measure_lt_of_work ?_ ?_
      · simp only [state]
        omega
      · simp only [work]
        omega
  | builtin _ counts => exact .left _ _ (spend counts)
  | builtinReturn counts => exact .left _ _ (spend counts)
  | procedure _ counts => exact .left _ _ (spend counts)
  | resume _ rest_eq weight_eq same =>
      refine measure_lt_of_work (Nat.le_of_eq same.symm) ?_
      simp only [work, waiting_cons, Reader.work, rest_eq, weight_eq]
      omega
  | passOn same =>
      refine measure_lt_of_work (Nat.le_of_eq same.symm) ?_
      simp only [work, waiting_cons]
      omega
  | unwind same =>
      refine measure_lt_of_work (Nat.le_of_eq same.symm) ?_
      simp only [work, waiting_cons]
      omega
  | succeed => exact measure_lt_of_work (Nat.le_refl _) (Nat.lt_add_left 0 (Nat.succ_pos 0))
  | giveUp => exact measure_lt_of_work (Nat.le_refl _) (Nat.lt_add_left 0 (Nat.succ_pos 0))
  | rest => cases h

end Machine

end EmbeddedTcl
