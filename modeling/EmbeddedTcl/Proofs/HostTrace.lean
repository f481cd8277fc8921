import EmbeddedTcl.Proofs.Scoping

/-!
# Lives of interpreters

Every moment of an interpreter whose host commands may call it again: by a script, by a single
command or through their session, in any nesting. `Life` says what such a list of moments is made
of. Between dispatches nothing happens that a limit is about; and a dispatch is one of five things,
of which the last one, a command that is called, has a life inside.
-/

namespace EmbeddedTcl

variable {H : Type}

/-! ## Moments of host commands -/

section

variable (d : Dispatcher H) (t : Tracer H)

def evaluateMoments (script : String) (st : State H) : List (Moment H) :=
  ⟨.mark, { st with pendingReturn := false }⟩ ::
    (Script.ofString script).trace d t { st with pendingReturn := false }

variable (renewed : Evaluator H)

/-- For an interpreter that was replaced, it is a single moment when another one evaluates. -/
def currentMoments (script : String) (st : State H) : List (Moment H) :=
  match st.replacement with
  | none => evaluateMoments d t script st
  | some _ => [⟨.act, (evaluateCurrent (evaluate d) renewed script st).2⟩]

variable (env : Env H)

def Request.moments (st : State H) : Request H → List (Moment H)
  | evaluate script => evaluateMoments d t script st
  | evaluateScript script => (Script.ofString script).trace d t st
  | dispatch words => t words st
  | sessionEval script => currentMoments d t renewed script st
  | sessionRun script =>
    ⟨.act, st.takeCurrentOutput.2⟩ ::
      (currentMoments d t renewed script st.takeCurrentOutput.2 ++
        [⟨.act, ((sessionRun script).perform env d renewed st).2⟩])
  | q => [⟨.act, (q.perform env d renewed st).2⟩]

def Program.moments : Program H → State H → List (Moment H)
  | reply _, _ => []
  | fail _, _ => []
  | ask request next, st =>
    let o := request.perform env d renewed st
    request.moments d t renewed env st ++ (next o.1).moments o.2

/-- The moments of a command from its start on. -/
def Handler.moments (args : List String) (st : State H) : Handler H → List (Moment H)
  | builtin b => b.trace args st
  | procedure p =>
    traceBind (p.params.zip args) st ++
      (Script.ofString p.body).trace d t { st with stack := st.stack.bind p.params args }
  | host h => (env.host h args).moments d t renewed env st

def callMoments (handler : Handler H) (args : List String) (st : State H) : List (Moment H) :=
  ⟨.call handler args, st.inside⟩ :: (handler.moments d t renewed env args st.inside ++
    [⟨.leave, (callHandler env d renewed handler args st).2⟩])

end

section

variable (env : Env H) (renewed : Evaluator H)

def enterMoments (inner : Option (Dispatcher H × Tracer H)) : Tracer H
  | [], _ => []
  | name :: args, st =>
    match st.commands.find? name with
    | none => []
    | some handler =>
      ⟨.count, st.counted⟩ ::
        if st.counted.commandCount > env.limits.maxCommands then []
        else
          match inner with
          | none => []
          | some (d, t) =>
            callMoments d t renewed env handler args
              (st.counted.note (.dispatching name args st.stack.depth))

def momentsWith : (room : Nat) → Tracer H
  | 0 => enterMoments env renewed none
  | room + 1 =>
    enterMoments env renewed (some (dispatchWith env renewed room, momentsWith room))

end

namespace Env

variable (env : Env H)

/-- The state after an operation. -/
def after (st : State H) : Operation → State H
  | .evaluate script => (env.evaluate script st).2
  | .evaluateScript script => (env.evaluateScript script st).2
  | .dispatch words => (env.dispatch words st).2
  | .setGlobal name text => (st.withStack (st.stack.set 0 name text)).2

def dispatchMoments : Tracer H := fun words st =>
  momentsWith env env.afresh (env.limits.room st.stack.depth) words st

def operationMoments (st : State H) : Operation → List (Moment H)
  | .evaluate script =>
    evaluateMoments (env.entry st) (momentsWith env env.afresh (env.limits.room st.stack.depth))
      script st
  | .evaluateScript script =>
    (Script.ofString script).trace (env.entry st)
      (momentsWith env env.afresh (env.limits.room st.stack.depth)) st
  | .dispatch words => env.dispatchMoments words st
  | .setGlobal name text => [⟨.act, (st.withStack (st.stack.set 0 name text)).2⟩]

/-- The moments of all operations, one after the other. -/
def moments : List Operation → State H → List (Moment H)
  | [], _ => []
  | op :: more, st => env.operationMoments st op ++ moments more (env.after st op)

end Env

/-! ## Lives -/

/-- A dispatch that was asked for: the words, and the state that it was asked for in. -/
structure Attempt (H : Type) where
  words : List String
  state : State H

/-- The first word is the name of a command. -/
def Attempt.registered (a : Attempt H) : Bool :=
  match a.words with
  | [] => false
  | name :: _ => a.state.commands.contains name

mutual

/-- Moments from one state to another, with the dispatches that were asked for on the way. What
happens between dispatches leaves the count of commands and the number of live scopes alone. -/
inductive Life (limits : Limits) :
    State H → List (Attempt H) → List (Moment H) → State H → Prop where
  | done (st : State H) : Life limits st [] [] st
  | change {st st' : State H} {m : Moment H} {asked : List (Attempt H)} {more : List (Moment H)}
      (quiet : m.event = .mark ∨ m.event = .act)
      (count : m.state.commandCount = st.commandCount)
      (depth : m.state.stack.depth = st.stack.depth) (rest : Life limits m.state asked more st') :
      Life limits st asked (m :: more) st'
  | dispatch {st st' : State H} {words : List String} {o : Outcome H Completion}
      {asked asked' : List (Attempt H)} {front back : List (Moment H)}
      (first : Dispatched limits words st asked front o) (rest : Life limits o.2 asked' back st') :
      Life limits st (asked ++ asked') (front ++ back) st'

/-- The moments of a dispatch, its outcome and the state that it leaves. A command is counted if its
name is known; then the count is checked, and then the number of live scopes. A refusal leaves
everything but the count as it was. -/
inductive Dispatched (limits : Limits) :
    List String → State H → List (Attempt H) → List (Moment H) → Outcome H Completion → Prop where
  | nameless (st : State H) : Dispatched limits [] st [⟨[], st⟩] [] (.error .noWords, st)
  | unknown {st : State H} {name : String} (args : List String)
      (absent : st.commands.find? name = none) :
      Dispatched limits (name :: args) st [⟨name :: args, st⟩] []
        (.error (.script (.unknownCommand name)), st)
  | overCommands {st : State H} {name : String} {handler : Handler H} (args : List String)
      (found : st.commands.find? name = some handler)
      (beyond : limits.maxCommands < st.commandCount + 1) :
      Dispatched limits (name :: args) st [⟨name :: args, st⟩] [⟨.count, st.counted⟩]
        (.error (.script limits.commandsError), st.counted)
  | overDepth {st : State H} {name : String} {handler : Handler H} (args : List String)
      (found : st.commands.find? name = some handler)
      (within : st.commandCount + 1 ≤ limits.maxCommands)
      (deep : limits.maxDepth ≤ st.stack.depth) :
      Dispatched limits (name :: args) st [⟨name :: args, st⟩] [⟨.count, st.counted⟩]
        (.error (.script limits.depthError), st.counted)
  | called {st st' : State H} {name : String} {handler : Handler H} {args : List String}
      {asked : List (Attempt H)} {body : List (Moment H)} (entry : LogEntry)
      (outcome : Except Fault Completion) (found : st.commands.find? name = some handler)
      (within : st.commandCount + 1 ≤ limits.maxCommands)
      (shallow : st.stack.depth < limits.maxDepth)
      (life : Life limits (st.counted.note entry).inside asked body st') :
      Dispatched limits (name :: args) st (⟨name :: args, st⟩ :: asked)
        (⟨.count, st.counted⟩ :: ⟨.call handler args, (st.counted.note entry).inside⟩ ::
          (body ++ [⟨.leave, st'.leave⟩]))
        (outcome, st'.leave)

end

section

variable {limits : Limits}

theorem Life.append {mid st' : State H} {asked' : List (Attempt H)} {back : List (Moment H)} :
    ∀ {st : State H} {asked : List (Attempt H)} {front : List (Moment H)},
      Life limits st asked front mid → Life limits mid asked' back st' →
        Life limits st (asked ++ asked') (front ++ back) st'
  | _, _, _, .done _, h' => h'
  | _, _, _, .change quiet count depth rest, h' => .change quiet count depth (rest.append h')
  | _, _, _, .dispatch first rest, h' => by
      rw [List.append_assoc, List.append_assoc]
      exact .dispatch first (rest.append h')

theorem Dispatched.life {words : List String} {st : State H} {asked : List (Attempt H)}
    {trace : List (Moment H)} {o : Outcome H Completion}
    (h : Dispatched limits words st asked trace o) : Life limits st asked trace o.2 := by
  rw [← List.append_nil asked, ← List.append_nil trace]
  exact .dispatch h (.done _)

theorem Life.act {st st' : State H} (count : st'.commandCount = st.commandCount)
    (depth : st'.stack.depth = st.stack.depth) : Life limits st [] [⟨.act, st'⟩] st' :=
  .change (.inr rfl) count depth (.done _)

mutual

theorem Life.depth_eq : ∀ {st st' : State H} {asked : List (Attempt H)} {trace : List (Moment H)},
    Life limits st asked trace st' → st'.stack.depth = st.stack.depth
  | _, _, _, _, .done _ => rfl
  | _, _, _, _, .change _ _ depth rest => rest.depth_eq.trans depth
  | _, _, _, _, .dispatch first rest => rest.depth_eq.trans first.depth_eq

theorem Dispatched.depth_eq :
    ∀ {words : List String} {st : State H} {asked : List (Attempt H)} {trace : List (Moment H)}
      {o : Outcome H Completion}, Dispatched limits words st asked trace o →
        o.2.stack.depth = st.stack.depth
  | _, _, _, _, _, .nameless _ => rfl
  | _, _, _, _, _, .unknown .. => rfl
  | _, _, _, _, _, .overCommands .. => rfl
  | _, _, _, _, _, .overDepth .. => rfl
  | _, _, _, _, _, .called _ _ _ _ _ life => ScopeStack.depth_drop life.depth_eq

end

/-! ## Every run is a life -/

/-- A stretch of a run with room for `room` more nested calls is part of a life. -/
def Lived (limits : Limits) (room : Nat) (st : State H) (trace : List (Moment H)) (st' : State H) :
    Prop :=
  limits.room st.stack.depth = room → ∃ asked, Life limits st asked trace st'

theorem Lived.stretches (limits : Limits) (room : Nat) :
    Stretches (Lived limits room : State H → List (Moment H) → State H → Prop) where
  nil st _ := ⟨[], .done st⟩
  append := by
    intro s t u front back h h' hroom
    obtain ⟨asked, hfront⟩ := h hroom
    obtain ⟨asked', hback⟩ := h' (by rw [hfront.depth_eq, hroom])
    exact ⟨asked ++ asked', hfront.append hback⟩
  mark st pending _ := ⟨[], .change (.inl rfl) rfl rfl (.done _)⟩

/-- A tracer that tells of each dispatch what happens. -/
def Tracer.Tells (t : Tracer H) (d : Dispatcher H) (limits : Limits) (room : Nat) : Prop :=
  ∀ words st, limits.room st.stack.depth = room →
    ∃ asked, Dispatched limits words st asked (t words st) (d words st)

section

variable {d : Dispatcher H} {t : Tracer H} {room : Nat}

theorem Tracer.Tells.has (ht : t.Tells d limits room) : t.Has d (Lived limits room) := by
  intro words st _ hroom
  obtain ⟨asked, h⟩ := ht words st hroom
  exact ⟨asked, h.life⟩

theorem Tracer.Tells.script (ht : t.Tells d limits room) (script : String) (st : State H) :
    Lived limits room st ((Script.ofString script).trace d t st)
      (evaluateScript d script st).2 := by
  rw [evaluateScript_eq_run]
  exact (Script.ofString script).trace_has (Lived.stretches limits room) ht.has {} st

theorem Tracer.Tells.evaluate (ht : t.Tells d limits room) (script : String) (st : State H) :
    Lived limits room st (evaluateMoments d t script st) (evaluate d script st).2 := by
  rw [evaluate_eq_run, Outcome.snd_map, ← evaluateScript_eq_run]
  exact (Lived.stretches limits room).cons (ht.script script _)

theorem Tracer.Tells.current (ht : t.Tells d limits room) (renewed : Evaluator H)
    (script : String) (st : State H) :
    Lived limits room st (currentMoments d t renewed script st)
      (evaluateCurrent (EmbeddedTcl.evaluate d) renewed script st).2 := by
  unfold currentMoments evaluateCurrent
  cases st.replacement with
  | none => exact ht.evaluate script st
  | some core => exact fun _ => ⟨[], .act rfl rfl⟩

theorem State.commandCount_takeCurrentOutput (st : State H) :
    st.takeCurrentOutput.2.commandCount = st.commandCount := by
  unfold State.takeCurrentOutput State.modifyCurrent
  split <;> rfl

theorem State.commandCount_withStack (st : State H) (change : Except Fault ScopeStack) :
    (st.withStack change).2.commandCount = st.commandCount := by
  cases change <;> rfl

/-- When a run is over, at most its output is taken. -/
theorem runCurrent_snd (eval : Evaluator H) (script : String) (st : State H) :
    let st' := (eval script st.takeCurrentOutput.2).2
    (runCurrent eval script st).2 = st'.takeCurrentOutput.2 ∨
      (runCurrent eval script st).2 = st' := by
  unfold runCurrent
  split
  all_goals
    rename_i heq
    rw [heq]
  · exact .inl rfl
  · exact .inl rfl
  · exact .inr rfl

theorem Tracer.Tells.sessionRun (ht : t.Tells d limits room) (env : Env H) (renewed : Evaluator H)
    (script : String) (st : State H) :
    Lived limits room st ((Request.sessionRun script).moments d t renewed env st)
      ((Request.sessionRun script).perform env d renewed st).2 := by
  intro hroom
  let taken := st.takeCurrentOutput.2
  have hdepth : taken.stack.depth = st.stack.depth := st.depth_takeCurrentOutput
  have hcount : taken.commandCount = st.commandCount := st.commandCount_takeCurrentOutput
  obtain ⟨asked, hlife⟩ := ht.current renewed script taken (by rw [hdepth, hroom])
  refine ⟨asked ++ [], .change (.inr rfl) hcount hdepth (hlife.append ?_)⟩
  rcases runCurrent_snd (evaluateCurrent (EmbeddedTcl.evaluate d) renewed) script st with heq | heq
  · refine .act ?_ ?_
    · exact (congrArg (·.commandCount) heq).trans (State.commandCount_takeCurrentOutput _)
    · exact (congrArg (·.stack.depth) heq).trans (State.depth_takeCurrentOutput _)
  · exact .act (congrArg (·.commandCount) heq) (congrArg (·.stack.depth) heq)

theorem Request.lived (ht : t.Tells d limits room) (env : Env H) (renewed : Evaluator H)
    (st : State H) (q : Request H) :
    Lived limits room st (q.moments d t renewed env st) (q.perform env d renewed st).2 := by
  cases q with
  | evaluate script => exact ht.evaluate script st
  | evaluateScript script => exact ht.script script st
  | dispatch words =>
      intro hroom
      obtain ⟨asked, h⟩ := ht words st hroom
      exact ⟨asked, h.life⟩
  | sessionEval script => exact ht.current renewed script st
  | sessionRun script => exact ht.sessionRun env renewed script st
  | set name text =>
      exact fun _ => ⟨[], .act (st.commandCount_withStack _)
        (st.depth_withStack _ fun _ h => ScopeStack.depth_set h)⟩
  | unset name =>
      exact fun _ => ⟨[], .act (st.commandCount_withStack _)
        (st.depth_withStack _ fun _ h => ScopeStack.depth_unset h)⟩
  | link name frame target => exact fun _ => ⟨[], .act rfl (ScopeStack.depth_link ..)⟩
  | write text =>
      obtain ⟨stream, output, heq⟩ := st.write_eq text
      refine fun _ => ⟨[], .act ?_ ?_⟩
      · exact congrArg (·.commandCount) heq
      · exact congrArg (·.stack.depth) heq
  | _ => exact fun _ => ⟨[], .act rfl rfl⟩

theorem Program.lived (ht : t.Tells d limits room) (env : Env H) (renewed : Evaluator H)
    (program : Program H) : ∀ st : State H,
      Lived limits room st (program.moments d t renewed env st)
        (program.run env d renewed st).2 := by
  induction program with
  | reply r => exact (Lived.stretches limits room).nil
  | fail fault => exact (Lived.stretches limits room).nil
  | ask request next ih =>
      intro st
      exact (Lived.stretches limits room).append (request.lived ht env renewed st) (ih _ _)

theorem Step.keeps_of_act {st : State H} {m : Moment H} (step : Step st m) (h : m.event = .act) :
    m.state.commandCount = st.commandCount ∧ m.state.stack.depth = st.stack.depth := by
  cases step with
  | still => exact ⟨rfl, rfl⟩
  | assign live set => exact ⟨rfl, ScopeStack.depth_set set⟩
  | link live name => exact ⟨rfl, ScopeStack.depth_link ..⟩
  | write text =>
      obtain ⟨stream, output, heq⟩ := st.write_eq text
      rw [heq]
      exact ⟨rfl, rfl⟩
  | register => exact ⟨rfl, rfl⟩
  | raise => exact ⟨rfl, rfl⟩
  | mark => cases h
  | count => cases h
  | call => cases h
  | leave => cases h

/-- What a command does by itself, one step at a time. -/
theorem Path.life_of_acts {st st' : State H} {trace : List (Moment H)} (path : Path st trace st')
    (h : Acts trace) : Life limits st [] trace st' := by
  induction path with
  | nil st => exact .done st
  | cons step _ ih =>
      obtain ⟨hact, hmore⟩ := List.forall_mem_cons.1 h
      obtain ⟨hcount, hdepth⟩ := step.keeps_of_act hact
      exact .change (.inr hact) hcount hdepth (ih hmore)

theorem Handler.lived (ht : t.Tells d limits room) (env : Env H) (renewed : Evaluator H)
    (args : List String) {st : State H} (hfree : st.stack.LinkFree st.stack.top)
    (handler : Handler H) :
    Lived limits room st (handler.moments d t renewed env args st)
      (handler.run env d renewed args st).2 := by
  cases handler with
  | builtin b =>
      rw [Handler.run_builtin, Outcome.snd_map]
      exact fun _ => ⟨[], (b.trace_path args st).life_of_acts (b.trace_acts args st)⟩
  | procedure p =>
      rw [Handler.run_procedure, Outcome.snd_map]
      refine (Lived.stretches limits room).append ?_ (ht.script p.body _)
      exact fun _ => ⟨[], (traceBind_path _ st hfree).life_of_acts (traceBind_acts _ st)⟩
  | host h => exact (env.host h args).lived ht env renewed st

/-- A command that may run is called and has a life in the scope made for it. -/
theorem callMoments_dispatched (ht : t.Tells d limits room) (env : Env H) (renewed : Evaluator H)
    {st : State H} {name : String} {handler : Handler H} (args : List String) (entry : LogEntry)
    (hroom : limits.room st.stack.depth = room + 1)
    (found : st.commands.find? name = some handler)
    (within : st.commandCount + 1 ≤ limits.maxCommands) :
    ∃ asked, Dispatched limits (name :: args) st asked
      (⟨.count, st.counted⟩ :: callMoments d t renewed env handler args (st.counted.note entry))
      (callHandler env d renewed handler args (st.counted.note entry)) := by
  let inside := (st.counted.note entry).inside
  have hinside : inside.stack.depth = st.stack.depth + 1 := st.stack.depth_push
  have hfree : inside.stack.LinkFree inside.stack.top := .push st.stack
  have shallow : st.stack.depth < limits.maxDepth := by
    simp only [Limits.room] at hroom
    omega
  have hroom' : limits.room inside.stack.depth = room := by
    rw [hinside, Limits.room_succ hroom]
  obtain ⟨asked, hlife⟩ := handler.lived ht env renewed args hfree hroom'
  rw [callMoments, callHandler_eq]
  exact ⟨_, .called entry _ found within shallow hlife⟩

end

section

variable (env : Env H) (renewed : Evaluator H)

theorem enterMoments_tells (inner : Option (Dispatcher H × Tracer H)) {room : Nat}
    (hnone : inner = none → room = 0)
    (hsome : ∀ p ∈ inner, ∃ r, room = r + 1 ∧ p.2.Tells p.1 env.limits r) :
    (enterMoments env renewed inner).Tells (enter env renewed (inner.map Prod.fst)) env.limits
      room := by
  intro words st hroom
  cases words with
  | nil => exact ⟨_, .nameless st⟩
  | cons name args =>
      rw [enterMoments, enter_cons]
      cases found : st.commands.find? name with
      | none => exact ⟨_, .unknown args found⟩
      | some handler =>
          dsimp only
          split
          · rename_i beyond
            exact ⟨_, .overCommands args found beyond⟩
          · rename_i hwithin
            have within : st.commandCount + 1 ≤ env.limits.maxCommands := Int.not_lt.1 hwithin
            cases inner with
            | none =>
                have deep : env.limits.maxDepth ≤ st.stack.depth := by
                  rw [hnone rfl, Limits.room] at hroom
                  omega
                exact ⟨_, .overDepth args found within deep⟩
            | some p =>
                obtain ⟨r, rfl, ht⟩ := hsome p rfl
                exact callMoments_dispatched ht env renewed args _ hroom found within

/-- **Every dispatch is one of five things**, and so is every dispatch inside it. -/
theorem momentsWith_tells (room : Nat) :
    (momentsWith env renewed room).Tells (dispatchWith env renewed room) env.limits room := by
  induction room with
  | zero => exact enterMoments_tells env renewed none (fun _ => rfl) (by simp)
  | succ room ih =>
      let inner := (dispatchWith env renewed room, momentsWith env renewed room)
      refine enterMoments_tells env renewed (some inner) nofun ?_
      rintro p ⟨⟩
      exact ⟨room, rfl, ih⟩

end

namespace Env

variable (env : Env H)

theorem dispatch_dispatched (words : List String) (st : State H) :
    ∃ asked, Dispatched env.limits words st asked (env.dispatchMoments words st)
      (env.dispatch words st) := by
  rw [Env.dispatch, entry_eq]
  exact momentsWith_tells env env.afresh _ words st rfl

theorem operation_life (st : State H) (op : Operation) :
    ∃ asked, Life env.limits st asked (env.operationMoments st op) (env.after st op) := by
  have htells := momentsWith_tells env env.afresh (env.limits.room st.stack.depth)
  rw [← env.entry_eq] at htells
  cases op with
  | evaluate script => exact htells.evaluate script st rfl
  | evaluateScript script => exact htells.script script st rfl
  | dispatch words =>
      obtain ⟨asked, h⟩ := env.dispatch_dispatched words st
      exact ⟨asked, h.life⟩
  | setGlobal name text =>
      exact ⟨[], .act (st.commandCount_withStack _)
        (st.depth_withStack _ fun _ h => ScopeStack.depth_set h)⟩

/-- **Whatever a host asks of an interpreter is a life of it.** -/
theorem life (ops : List Operation) :
    ∀ st : State H, ∃ asked, Life env.limits st asked (env.moments ops st)
      (ops.foldl env.after st) := by
  induction ops with
  | nil => exact fun st => ⟨[], .done st⟩
  | cons op more ih =>
      intro st
      obtain ⟨asked, h⟩ := env.operation_life st op
      obtain ⟨asked', h'⟩ := ih (env.after st op)
      exact ⟨asked ++ asked', h.append h'⟩

end Env

end

end EmbeddedTcl
