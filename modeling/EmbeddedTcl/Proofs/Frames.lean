import EmbeddedTcl.Proofs.Return
import EmbeddedTcl.Proofs.Scoping
import EmbeddedTcl.Scope.Arena

/-!
# Frames

A trace tells which scopes there are after each change, but not which of them are the same as
before. Here it is replayed on an arena, where every call pushes a frame that nothing else ever
was, and the frame that is popped is the one pushed last. What comes out is a tree: a text is read
in one frame, each command of it is called from that frame, at whatever depth of brackets it
stands, and the body of a procedure is a text read in the frame of the call.
-/

namespace EmbeddedTcl

namespace Arena

/-! ## Frames that hold the scopes of a stack -/

/-- The number of the frame that a frame with a given number was pushed on. -/
def below : Nat → Option Nat
  | 0 => none
  | k + 1 => some k

/-- The live frames are numbered from the global one on, each was pushed on the one before it, and
they hold what the scopes at their levels hold. -/
structure Shows (a : Arena) (s : ScopeStack) : Prop where
  depth_eq : a.depth = s.depth
  frame_eq : ∀ {level handle : Nat} {scope : Scope}, a.live[level]? = some handle →
    s.scope? level = some scope → a.frames[handle]? = some ⟨level, below level, scope⟩

theorem length_live (a : Arena) : a.live.length = a.depth := by
  simp [live, depth]

theorem live_push (a : Arena) : a.push.1.live = a.live ++ [a.frames.length] := by
  simp [push, live]

theorem live_current (a : Arena) : a.live[a.calls.length]? = some a.current := by
  obtain ⟨frames, calls⟩ := a
  cases calls with
  | nil => rfl
  | cons handle more => simp [live, current]

section

variable {a : Arena} {s : ScopeStack} (h : a.Shows s)

include h

theorem Shows.frame_of_live {level handle : Nat} (hlive : a.live[level]? = some handle) :
    ∃ scope, s.scope? level = some scope ∧
      a.frames[handle]? = some ⟨level, below level, scope⟩ := by
  have hlevel : level < s.depth := by
    rw [← h.depth_eq, ← length_live]
    exact (List.getElem?_eq_some_iff.1 hlive).1
  obtain ⟨scope, hscope⟩ := ScopeStack.exists_scope? hlevel
  exact ⟨scope, hscope, h.frame_eq hlive hscope⟩

theorem Shows.handle_lt {level handle : Nat} (hlive : a.live[level]? = some handle) :
    handle < a.frames.length := by
  obtain ⟨scope, _, hframe⟩ := h.frame_of_live hlive
  exact (List.getElem?_eq_some_iff.1 hframe).1

theorem Shows.index_current : (a.frames[a.current]?).map Frame.index = some a.calls.length := by
  obtain ⟨scope, _, hframe⟩ := h.frame_of_live a.live_current
  rw [hframe]
  rfl

theorem Shows.frames_push :
    a.push.1.frames = a.frames ++ [⟨a.depth, some a.calls.length, Table.empty⟩] := by
  simp only [Arena.push, h.index_current]

theorem Shows.push : a.push.1.Shows s.push where
  depth_eq := by
    rw [ScopeStack.depth_push, ← h.depth_eq]
    rfl
  frame_eq := by
    intro level handle scope hlive hscope
    rw [live_push] at hlive
    rw [ScopeStack.scope?_push, ← h.depth_eq] at hscope
    by_cases hold : level < a.live.length
    · rw [List.getElem?_append_left hold] at hlive
      rw [length_live] at hold
      rw [if_neg (Nat.ne_of_lt hold)] at hscope
      rw [← h.frame_eq hlive hscope]
      exact List.getElem?_append_left (h.handle_lt hlive)
    -- the frame just pushed
    · have hle := Nat.le_of_not_lt hold
      rw [List.getElem?_append_right hle, List.getElem?_singleton] at hlive
      split at hlive
      · rename_i hzero
        have hlevel : level = a.depth := by
          rw [length_live] at hle hzero
          omega
        subst hlevel
        cases hlive
        rw [if_pos rfl] at hscope
        cases hscope
        rw [h.frames_push, List.getElem?_concat_length]
        rfl
      · cases hlive

theorem Shows.pop (inner : 1 < s.depth) : a.pop.2.Shows s.drop := by
  obtain ⟨frames, calls⟩ := a
  have hdepth := h.depth_eq
  cases calls with
  | nil =>
      rw [← hdepth] at inner
      exact absurd inner (by simp [depth])
  | cons handle more =>
      have hlive : (⟨frames, handle :: more⟩ : Arena).live =
          (⟨frames, more⟩ : Arena).live ++ [handle] := by
        simp [live]
      have hdrop : (⟨frames, more⟩ : Arena).depth = s.drop.depth :=
        (ScopeStack.depth_drop hdepth.symm).symm
      refine ⟨hdrop, ?_⟩
      intro level other scope hother hscope
      have hlevel : level < (⟨frames, more⟩ : Arena).live.length :=
        (List.getElem?_eq_some_iff.1 hother).1
      refine h.frame_eq ?_ ?_
      · rw [hlive, List.getElem?_append_left hlevel]
        exact hother
      · rw [length_live, hdrop] at hlevel
        rw [← s.scope?_drop hlevel]
        exact hscope

end

/-! ## Replaying a trace -/

/-- The same frames, the live ones with what the scopes at their levels hold. -/
def holding (a : Arena) (s : ScopeStack) : Arena :=
  { a with
    frames := a.frames.mapIdx fun handle frame =>
      if handle ∈ a.live then { frame with slots := (s.scope? frame.index).getD frame.slots }
      else frame }

theorem Shows.holding {a : Arena} {s s' : ScopeStack} (h : a.Shows s)
    (hdepth : s'.depth = s.depth) : (a.holding s').Shows s' where
  depth_eq := h.depth_eq.trans hdepth.symm
  frame_eq := by
    intro level handle scope hlive hscope
    obtain ⟨old, _, hframe⟩ := h.frame_of_live hlive
    have hmem : handle ∈ a.live := List.mem_of_getElem? hlive
    simp [Arena.holding, hframe, hmem, hscope]

/-- Every stack of scopes can be shown by frames. -/
theorem exists_shows (s : ScopeStack) : ∃ a : Arena, a.Shows s := by
  obtain ⟨globals, locals⟩ := s
  induction locals with
  | nil =>
      have hstart : start.Shows {} := by
        refine ⟨rfl, ?_⟩
        intro level handle scope hlive hscope
        cases level with
        | zero =>
            cases hlive
            cases hscope
            rfl
        | succ k => cases hlive
      exact ⟨_, hstart.holding rfl⟩
  | cons scope more ih =>
      obtain ⟨a, ha⟩ := ih
      exact ⟨_, ha.push.holding rfl⟩

variable {H : Type}

/-- The frames after a moment of a trace. -/
def after (a : Arena) (m : Moment H) : Arena :=
  match m.event with
  | .call _ _ => a.push.1
  | .leave => a.pop.2
  | _ => a.holding m.state.stack

def replay (a : Arena) (trace : List (Moment H)) : Arena :=
  trace.foldl after a

@[simp]
theorem replay_nil (a : Arena) : a.replay ([] : List (Moment H)) = a := rfl

@[simp]
theorem replay_cons (a : Arena) (m : Moment H) (more : List (Moment H)) :
    a.replay (m :: more) = (a.after m).replay more := rfl

@[simp]
theorem replay_append (a : Arena) (front back : List (Moment H)) :
    a.replay (front ++ back) = (a.replay front).replay back :=
  List.foldl_append

end Arena

variable {H : Type}

theorem Step.shows {st : State H} {m : Moment H} (step : Step st m) {a : Arena}
    (h : a.Shows st.stack) : (a.after m).Shows m.state.stack := by
  cases step with
  | call => exact h.push
  | leave inner => exact h.pop inner
  | assign _ hset => exact h.holding (ScopeStack.depth_set hset)
  | link => exact h.holding (ScopeStack.depth_link ..)
  | write text =>
      obtain ⟨stream, output, heq⟩ := st.write_eq text
      rw [heq]
      exact h.holding rfl
  | _ => exact h.holding rfl

theorem Path.shows {s t : State H} {trace : List (Moment H)} (path : Path s trace t) :
    ∀ {a : Arena}, a.Shows s.stack → (a.replay trace).Shows t.stack := by
  induction path with
  | nil => exact fun h => h
  | cons step _ ih => exact fun h => ih (step.shows h)

/-- The frames show the state of every moment on the way. -/
theorem Path.shows_moment {s t : State H} {front back : List (Moment H)} {m : Moment H}
    (path : Path s (front ++ m :: back) t) {a : Arena} (h : a.Shows s.stack) :
    (a.replay (front ++ [m])).Shows m.state.stack := by
  obtain ⟨u, hfront, hback⟩ := path.split
  cases hback with
  | cons step _ =>
      rw [Arena.replay_append]
      exact step.shows (hfront.shows h)

/-! ## Texts and commands -/

namespace Arena

/-- There is one more live frame: a new one that holds nothing, pushed on the innermost of those
before. -/
structure Opens (a : Arena) (handle : Nat) (a' : Arena) : Prop where
  new : a.frames[handle]? = none
  calls : a'.calls = handle :: a.calls
  empty : a'.scope? handle = some Table.empty
  parent : a'.parent handle = .ok (some a.current)

theorem Shows.opens {a : Arena} {s : ScopeStack} (h : a.Shows s) :
    a.Opens a.frames.length a.push.1 where
  new := by simp
  calls := rfl
  empty := by
    rw [scope?, h.frames_push, List.getElem?_concat_length]
    rfl
  parent := by
    have hframe : a.push.1.frame a.frames.length =
        .ok ⟨a.depth, some a.calls.length, Table.empty⟩ := by
      rw [frame, h.frames_push, List.getElem?_concat_length]
    have hlive : a.push.1.live[a.calls.length]? = some a.current := by
      rw [live_push, List.getElem?_append_left (by simp [length_live, depth])]
      exact a.live_current
    have hplace : place? a.push.1.depth a.calls.length = some a.calls.length := by
      have hdepth : a.push.1.depth = a.calls.length + 2 := rfl
      simp only [place?, hdepth]
      grind
    rw [parent, hframe]
    simp only [liveAt, hplace, hlive, Option.bind_some, bind, Except.bind, pure, Except.pure]

end Arena

mutual

/-- The moments of a text that is read while `calls` are in progress. Returns are marked; and every
command, wherever in the text it stands, is dispatched while just these calls are in progress. -/
inductive TextRun (env : Env Empty) : List Nat → Arena → List (Moment Empty) → Prop where
  | done {calls : List Nat} {a : Arena} : TextRun env calls a []
  | mark {calls : List Nat} {a : Arena} {st : State Empty} {more : List (Moment Empty)}
      (rest : TextRun env calls (a.after (⟨.mark, st⟩ : Moment Empty)) more) :
      TextRun env calls a (⟨.mark, st⟩ :: more)
  | command {calls : List Nat} {a : Arena} {front back : List (Moment Empty)}
      (here : a.calls = calls) (first : CommandRun env a front)
      (rest : TextRun env calls (a.replay front) back) : TextRun env calls a (front ++ back)

/-- The moments of a dispatch. Unless the command is unknown or a limit holds it back, it gets a
frame of its own, pushed on the one it is dispatched from; the body of a procedure is a text that is
read in that frame. -/
inductive CommandRun (env : Env Empty) : Arena → List (Moment Empty) → Prop where
  | unknown {a : Arena} : CommandRun env a []
  | limited {a : Arena} {st : State Empty} : CommandRun env a [⟨.count, st⟩]
  | builtin {a : Arena} {counted inside left : State Empty} {handle : Nat} {b : Builtin}
      {args : List String} {acts : List (Moment Empty)}
      (opens : (a.after (⟨.count, counted⟩ : Moment Empty)).Opens handle
        (a.replay [⟨.count, counted⟩, ⟨.call (.builtin b) args, inside⟩]))
      (acts_only : Acts acts) :
      CommandRun env a
        (⟨.count, counted⟩ :: ⟨.call (.builtin b) args, inside⟩ :: (acts ++ [⟨.leave, left⟩]))
  | procedure {a : Arena} {counted inside bound left : State Empty} {handle : Nat} {p : Procedure}
      {args : List String} {acts : List (Moment Empty)}
      (opens : (a.after (⟨.count, counted⟩ : Moment Empty)).Opens handle
        (a.replay [⟨.count, counted⟩, ⟨.call (.procedure p) args, inside⟩]))
      (acts_only : Acts acts)
      (body : TextRun env (handle :: a.calls)
        (a.replay (⟨.count, counted⟩ :: ⟨.call (.procedure p) args, inside⟩ :: acts))
        (env.traceScript p.body bound)) :
      CommandRun env a
        (⟨.count, counted⟩ :: ⟨.call (.procedure p) args, inside⟩ ::
          (acts ++ (env.traceScript p.body bound ++ [⟨.leave, left⟩])))

end

theorem Acts.calls_replay {acts : List (Moment H)} (h : Acts acts) :
    ∀ a : Arena, (a.replay acts).calls = a.calls := by
  induction acts with
  | nil => exact fun _ => rfl
  | cons m more ih =>
      intro a
      obtain ⟨hm, hmore⟩ := List.forall_mem_cons.1 h
      have hafter : (a.after m).calls = a.calls := by
        rw [Arena.after, hm]
        rfl
      exact (ih hmore _).trans hafter

/-- The frame that a command was given is the one that is popped. -/
theorem Arena.calls_leave {a : Arena} {handle : Nat} {calls : List Nat}
    (h : a.calls = handle :: calls) (st : State H) :
    (a.after (⟨.leave, st⟩ : Moment H)).calls = calls := by
  simp only [Arena.after, Arena.pop, h]

section

variable {env : Env Empty}

mutual

theorem TextRun.calls_eq {calls : List Nat} :
    ∀ {a : Arena} {trace : List (Moment Empty)}, TextRun env calls a trace → a.calls = calls →
      (a.replay trace).calls = calls
  | _, _, .done, h => h
  | _, _, .mark rest, h => rest.calls_eq h
  | _, _, .command here first rest, _ => by
      rw [Arena.replay_append]
      exact rest.calls_eq (first.calls_eq.trans here)

theorem CommandRun.calls_eq :
    ∀ {a : Arena} {trace : List (Moment Empty)}, CommandRun env a trace →
      (a.replay trace).calls = a.calls
  | _, _, .unknown => rfl
  | _, _, .limited => rfl
  | _, _, .builtin opens acts_only => by
      have hacts := (acts_only.calls_replay _).trans opens.calls
      simp only [Arena.replay_cons, Arena.replay_append, Arena.replay_nil] at hacts ⊢
      exact Arena.calls_leave hacts _
  | _, _, .procedure opens acts_only body => by
      have hacts := (acts_only.calls_replay _).trans opens.calls
      have hbody := body.calls_eq hacts
      simp only [Arena.replay_cons, Arena.replay_append, Arena.replay_nil] at hbody ⊢
      exact Arena.calls_leave hbody _

end

theorem TextRun.append {calls : List Nat} {back : List (Moment Empty)} :
    ∀ {a : Arena} {front : List (Moment Empty)}, TextRun env calls a front →
      TextRun env calls (a.replay front) back → TextRun env calls a (front ++ back)
  | _, _, .done, h => h
  | _, _, .mark rest, h => .mark (rest.append h)
  | _, _, .command here first rest, h => by
      rw [Arena.replay_append] at h
      rw [List.append_assoc]
      exact .command here first (rest.append h)

end

/-! ## Traces of texts and commands -/

/-- A stretch of a run that belongs to a text read while `calls` are in progress. -/
def ReadIn (env : Env Empty) (calls : List Nat) (st : State Empty) (trace : List (Moment Empty))
    (st' : State Empty) : Prop :=
  Path st trace st' ∧
    ∀ a : Arena, a.Shows st.stack → a.calls = calls → TextRun env calls a trace

theorem ReadIn.stretches (env : Env Empty) (calls : List Nat) : Stretches (ReadIn env calls) where
  nil st := ⟨.nil st, fun _ _ _ => .done⟩
  append := by
    rintro s t u front back ⟨hpath, htext⟩ ⟨hpath', htext'⟩
    refine ⟨hpath.append hpath', ?_⟩
    intro a h hcalls
    have hfront := htext a h hcalls
    exact hfront.append (htext' _ (hpath.shows h) (hfront.calls_eq hcalls))
  mark st pending := ⟨.single (.mark st pending), fun _ _ _ => .mark .done⟩

/-- Where `room` more calls may be nested, each dispatch is a command run. -/
def RunsCommands (env : Env Empty) (room : Nat) : Prop :=
  ∀ (words : List String) {st : State Empty} {a : Arena}, env.limits.room st.stack.depth = room →
    a.Shows st.stack → CommandRun env a (traceWith env env.afresh room words st)

theorem RunsCommands.textRun {env : Env Empty} {room : Nat} (hruns : RunsCommands env room)
    (script : String) {st : State Empty} {a : Arena}
    (hroom : env.limits.room st.stack.depth = room) (h : a.Shows st.stack) :
    TextRun env a.calls a (env.traceScript script st) := by
  have hhas : (traceWith env env.afresh room).Has (env.entry st) (ReadIn env a.calls) := by
    intro words st' _
    rw [env.entry_eq, hroom]
    refine ⟨traceWith_path env env.afresh room words st', ?_⟩
    intro a' h' hcalls
    -- as many frames are live as at the start of the text
    have hdepth : st'.stack.depth = st.stack.depth := by
      rw [← h'.depth_eq, ← h.depth_eq, Arena.depth, hcalls, Arena.depth]
    have hcommand := hruns words (by rw [hdepth, hroom]) h'
    rw [← List.append_nil (traceWith env env.afresh room words st')]
    exact .command hcalls hcommand .done
  have hread := (Script.ofString script).trace_has (ReadIn.stretches env a.calls) hhas {} st
  rw [Env.traceScript, hroom]
  exact hread.2 a h rfl

theorem traceCall_commandRun (env : Env Empty) {room : Nat} (hruns : RunsCommands env room)
    (handler : Handler Empty) (args : List String) {st : State Empty} (entry : LogEntry) {a : Arena}
    (hroom : env.limits.room st.stack.depth = room + 1) (h : a.Shows st.stack) :
    CommandRun env a (⟨.count, st.counted⟩ ::
      traceCall env (dispatchWith env env.afresh room) (traceWith env env.afresh room) env.afresh
        handler args (st.counted.note entry)) := by
  let called := (st.counted.note entry).inside
  have hcounted := (Step.count st).shows h
  have hcalled := (Step.call st.counted handler args entry).shows hcounted
  cases handler with
  | builtin b => exact .builtin hcounted.opens (b.trace_acts args called)
  | procedure p =>
      let bound : State Empty := { called with stack := called.stack.bind p.params args }
      have hacts : Acts (traceBind (p.params.zip args) called) := traceBind_acts _ _
      have hbound := (traceBind_path (p.params.zip args) called (.push st.stack)).shows hcalled
      have hroom' : env.limits.room bound.stack.depth = room := by
        have hdepth : bound.stack.depth = st.stack.depth + 1 := ScopeStack.depth_bind ..
        rw [hdepth, Limits.room_succ hroom]
      have hbody := hruns.textRun p.body hroom' hbound
      rw [hacts.calls_replay] at hbody
      have htext : (Script.ofString p.body).trace (dispatchWith env env.afresh room)
          (traceWith env env.afresh room) bound = env.traceScript p.body bound := by
        rw [Env.traceScript, env.entry_eq, hroom']
      rw [traceCall, Handler.trace, List.cons_append, List.append_assoc, htext]
      exact .procedure hcounted.opens hacts hbody
  | host h => exact h.elim

theorem traceEnter_commandRun (env : Env Empty)
    (inner : Option (Dispatcher Empty × Tracer Empty)) (words : List String) {st : State Empty}
    {a : Arena}
    (hcall : ∀ p ∈ inner, ∀ handler args entry, CommandRun env a (⟨.count, st.counted⟩ ::
      traceCall env p.1 p.2 env.afresh handler args (st.counted.note entry))) :
    CommandRun env a (traceEnter env env.afresh inner words st) := by
  cases words with
  | nil => exact .unknown
  | cons name args =>
      rw [traceEnter]
      cases st.commands.find? name with
      | none => exact .unknown
      | some handler =>
          dsimp only
          split
          · exact .limited
          · cases inner with
            | none => exact .limited
            | some p => exact hcall p rfl handler args _

theorem runsCommands (env : Env Empty) (room : Nat) : RunsCommands env room := by
  induction room with
  | zero =>
      intro words st a _ _
      exact traceEnter_commandRun env none words (by simp)
  | succ room ih =>
      intro words st a hroom h
      refine traceEnter_commandRun env (some (_, _)) words ?_
      rintro p ⟨⟩ handler args entry
      exact traceCall_commandRun env ih handler args entry hroom h

namespace Env

theorem dispatch_flag (env : Env H) (words : List String) {st : State H}
    (h : st.returnFlag = false) : (env.dispatch words st).2.returnFlag = false := by
  rw [Env.dispatch, entry_eq]
  exact dispatchWith_flag env env.afresh _ words h

theorem operate_flag (env : Env Empty) (op : Operation) {st : State Empty}
    (h : st.returnFlag = false) : (env.operate st op).returnFlag = false := by
  cases op with
  | evaluate script => exact evaluate_keeps returnFlag_unmarked (env.entry_keeps_flag st) script h
  | evaluateScript script =>
      exact evaluateScript_keeps returnFlag_unmarked (env.entry_keeps_flag st) script h
  | dispatch words => exact env.dispatch_flag words h
  | setGlobal name text =>
      rw [operate]
      cases st.stack.set 0 name text <;> exact h

theorem calls_operate (env : Env Empty) (op : Operation) {st : State Empty} {a : Arena}
    (h : a.Shows st.stack) : (a.replay (env.traceOperation st op)).calls = a.calls := by
  cases op with
  | evaluate script =>
      exact ((runsCommands env _).textRun script rfl ((Step.mark st false).shows h)).calls_eq rfl
  | evaluateScript script => exact ((runsCommands env _).textRun script rfl h).calls_eq rfl
  | dispatch words => exact (runsCommands env _ words rfl h).calls_eq
  | setGlobal name text => rfl

end Env

/-- **Frames.** Frames can show the scopes of any state. Whatever is asked of an interpreter from
there, single steps lead to where it ends, with or without a fault; the frames that are live then are
those that were live at the start, with the same numbers and parents, and the return flag is down if
it was. Each command of a text gets a new frame that holds nothing, pushed on the frame that the
text is read in, whether the command stands in the text directly or in any number of brackets. So
brackets take up no depth, and a command in brackets has the same variables to work on as the one
around it. -/
theorem frames_nest_by_calls_alone (env : Env Empty) (st : State Empty) :
    (∃ a : Arena, a.Shows st.stack) ∧
    (∀ op, st.returnFlag = false → (env.operate st op).returnFlag = false) ∧
    ∀ a : Arena, a.Shows st.stack →
      (∀ op, Path st (env.traceOperation st op) (env.operate st op) ∧
        (a.replay (env.traceOperation st op)).live = a.live ∧
        (a.replay (env.traceOperation st op)).Shows (env.operate st op).stack ∧
        ∀ front m back, env.traceOperation st op = front ++ m :: back →
          (a.replay (front ++ [m])).Shows m.state.stack) ∧
      (∀ script, TextRun env a.calls a (env.traceOperation st (.evaluate script))) ∧
      (∀ script, TextRun env a.calls a (env.traceOperation st (.evaluateScript script))) ∧
      ∀ words, CommandRun env a (env.traceOperation st (.dispatch words)) := by
  refine ⟨Arena.exists_shows st.stack, fun op => env.operate_flag op, ?_⟩
  intro a h
  refine ⟨?_, ?_, ?_, ?_⟩
  · intro op
    have hpath := env.traceOperation_path st op
    refine ⟨hpath, ?_, hpath.shows h, ?_⟩
    · rw [Arena.live, env.calls_operate op h, Arena.live]
    · intro front m back heq
      rw [heq] at hpath
      exact hpath.shows_moment h
  · intro script
    exact .mark ((runsCommands env _).textRun script rfl ((Step.mark st false).shows h))
  · intro script
    exact (runsCommands env _).textRun script rfl h
  · intro words
    exact runsCommands env _ words rfl h

/-- Where one call may be in progress, brackets still nest. -/
example :
    ({ Config.bare.env with limits := { maxDepth := 2 } }.evaluate "set a [set b [set c 1]]"
      State.initial).1.toOption = some "1" := by
  decide +kernel

end EmbeddedTcl
