import EmbeddedTcl.Proofs.HostTrace
import EmbeddedTcl.Proofs.Termination

/-!
# Both limits hold

A command is counted before the limits are looked at, so the count goes on when they refuse; the
limits bound what is called. A call is allowed only while the count is within its limit, and is
counted itself, so there are never more calls than that limit says. It is allowed only below the
limit on live scopes, and adds just one. All this is read off the parts that a life is made of, so
it holds from the first operation to the last, whatever fails on the way and however commands call
each other.
-/

namespace EmbeddedTcl

variable {H : Type} {limits : Limits}

def Event.isCall : Event H → Bool
  | call _ _ => true
  | _ => false

/-! ## What a life keeps -/

/-- A property that holds of the parts of a life and is handed on from one to the next. -/
structure Life.Kept (limits : Limits)
    (P : State H → List (Attempt H) → List (Moment H) → State H → Prop) : Prop where
  done : ∀ st, P st [] [] st
  append : ∀ {s t u asked asked' front back}, P s asked front t → P t asked' back u →
    P s (asked ++ asked') (front ++ back) u
  change : ∀ {st m}, m.event = .mark ∨ m.event = .act → m.state.commandCount = st.commandCount →
    m.state.stack.depth = st.stack.depth → P st [] [m] m.state
  unknown : ∀ {st a}, a.registered = false → P st [a] [] st
  refused : ∀ {st a}, a.registered = true → P st [a] [⟨.count, st.counted⟩] st.counted
  called : ∀ {st st' a handler args entry asked body}, a.registered = true →
    st.commandCount + 1 ≤ limits.maxCommands → st.stack.depth < limits.maxDepth →
    st'.stack.depth = st.stack.depth + 1 → P (st.counted.note entry).inside asked body st' →
    P st (a :: asked)
      (⟨.count, st.counted⟩ :: ⟨.call handler args, (st.counted.note entry).inside⟩ ::
        (body ++ [⟨.leave, st'.leave⟩])) st'.leave

theorem Attempt.registered_of_found {st : State H} {name : String} {handler : Handler H}
    (args : List String) (found : st.commands.find? name = some handler) :
    Attempt.registered ⟨name :: args, st⟩ = true := by
  show (st.commands.find? name).isSome = true
  rw [found]
  rfl

theorem Attempt.registered_of_absent {st : State H} {name : String} (args : List String)
    (absent : st.commands.find? name = none) :
    Attempt.registered ⟨name :: args, st⟩ = false := by
  show (st.commands.find? name).isSome = false
  rw [absent]
  rfl

section

variable {P : State H → List (Attempt H) → List (Moment H) → State H → Prop}
  (hP : Life.Kept limits P)

include hP

mutual

theorem Life.Kept.life : ∀ {st st' : State H} {asked : List (Attempt H)} {trace : List (Moment H)},
    Life limits st asked trace st' → P st asked trace st'
  | _, _, _, _, .done st => hP.done st
  | _, _, _, _, .change quiet count depth rest =>
      hP.append (hP.change quiet count depth) (Life.Kept.life rest)
  | _, _, _, _, .dispatch first rest =>
      hP.append (Life.Kept.dispatched first) (Life.Kept.life rest)

theorem Life.Kept.dispatched :
    ∀ {words : List String} {st : State H} {asked : List (Attempt H)} {trace : List (Moment H)}
      {o : Outcome H Completion}, Dispatched limits words st asked trace o → P st asked trace o.2
  | _, _, _, _, _, .nameless _ => hP.unknown rfl
  | _, _, _, _, _, .unknown args absent => hP.unknown (Attempt.registered_of_absent args absent)
  | _, _, _, _, _, .overCommands args found _ =>
      hP.refused (Attempt.registered_of_found args found)
  | _, _, _, _, _, .overDepth args found _ _ => hP.refused (Attempt.registered_of_found args found)
  | _, _, _, _, _, .called _ _ found within shallow life =>
      hP.called (Attempt.registered_of_found _ found) within shallow life.depth_eq
        (Life.Kept.life life)

end

end

/-! ## The count of commands -/

/-- The count goes up by one for each dispatch of a name that is known, and not otherwise. -/
theorem asked_kept : Life.Kept (H := H) limits fun st asked _ st' =>
    st'.commandCount = st.commandCount + asked.countP Attempt.registered where
  done _ := rfl
  append := by
    intro s t u asked asked' front back h h'
    rw [List.countP_append]
    omega
  change _ count _ := count
  unknown h := by simp [h]
  refused h := by simp [h, State.counted]
  called := by
    intro st st' a handler args entry asked body h _ _ _ hbody
    have hinside : (st.counted.note entry).inside.commandCount = st.commandCount + 1 := rfl
    have hleave : st'.leave.commandCount = st'.commandCount := rfl
    rw [List.countP_cons_of_pos h]
    omega

/-- From each moment to the next the count goes up by one if a command is counted there, and stays
as it is otherwise. -/
def Tallied : State H → List (Moment H) → Prop
  | _, [] => True
  | st, m :: more =>
    m.state.commandCount = st.commandCount + [m].countP (·.event.isCount) ∧ Tallied m.state more

namespace Tallied

theorem congr {st st' : State H} {trace : List (Moment H)} (h : Tallied st trace)
    (heq : st'.commandCount = st.commandCount) : Tallied st' trace := by
  cases trace with
  | nil => trivial
  | cons m more =>
      obtain ⟨hm, hmore⟩ := h
      exact ⟨by rw [hm, heq], hmore⟩

theorem append {mid : State H} {front back : List (Moment H)} (h' : Tallied mid back) :
    ∀ {st : State H}, Tallied st front →
      mid.commandCount = st.commandCount + front.countP (·.event.isCount) →
        Tallied st (front ++ back) := by
  induction front with
  | nil =>
      intro st _ hmid
      exact h'.congr hmid.symm
  | cons m front ih =>
      intro st h hmid
      obtain ⟨hm, hmore⟩ := h
      refine ⟨hm, ih hmore ?_⟩
      rw [hmid, hm, Nat.add_assoc, ← List.countP_append]
      rfl

theorem le {trace : List (Moment H)} :
    ∀ {st : State H}, Tallied st trace → ∀ m ∈ trace, st.commandCount ≤ m.state.commandCount := by
  induction trace with
  | nil => simp
  | cons first more ih =>
      intro st h
      obtain ⟨hfirst, hmore⟩ := h
      have hle : st.commandCount ≤ first.state.commandCount := hfirst ▸ Nat.le_add_right _ _
      exact List.forall_mem_cons.2 ⟨hle, fun m hm => Nat.le_trans hle (ih hmore m hm)⟩

/-- The count never goes down. -/
theorem pairwise {trace : List (Moment H)} :
    ∀ {st : State H}, Tallied st trace →
      (trace.map (·.state.commandCount)).Pairwise (· ≤ ·) := by
  induction trace with
  | nil => exact fun _ => .nil
  | cons m more ih =>
      intro st h
      obtain ⟨_, hmore⟩ := h
      refine .cons ?_ (ih hmore)
      intro count hcount
      obtain ⟨later, hlater, rfl⟩ := List.mem_map.1 hcount
      exact hmore.le later hlater

/-- In every moment the count tells how many commands were counted up to then. -/
theorem at_moment {front back : List (Moment H)} {m : Moment H} :
    ∀ {st : State H}, Tallied st (front ++ m :: back) →
      m.state.commandCount = st.commandCount + (front ++ [m]).countP (·.event.isCount) := by
  induction front with
  | nil => exact fun h => h.1
  | cons first front ih =>
      intro st h
      obtain ⟨hfirst, hmore⟩ := h
      rw [ih hmore, hfirst, Nat.add_assoc, ← List.countP_append]
      rfl

end Tallied

theorem tallied_kept : Life.Kept (H := H) limits fun st _ trace st' =>
    Tallied st trace ∧ st'.commandCount = st.commandCount + trace.countP (·.event.isCount) where
  done _ := ⟨trivial, rfl⟩
  append := by
    rintro s t u asked asked' front back ⟨h, ht⟩ ⟨h', hu⟩
    refine ⟨h'.append h ht, ?_⟩
    rw [hu, ht, List.countP_append, Nat.add_assoc]
  change := by
    intro st m quiet count _
    have hm : m.state.commandCount = st.commandCount + [m].countP (·.event.isCount) := by
      rw [count]
      rcases quiet with hmark | hact
      · simp [hmark, Event.isCount]
      · simp [hact, Event.isCount]
    exact ⟨⟨hm, trivial⟩, hm⟩
  unknown _ := ⟨trivial, rfl⟩
  refused _ := ⟨⟨rfl, trivial⟩, rfl⟩
  called := by
    rintro st st' a handler args entry asked body _ _ _ _ ⟨hbody, hcount⟩
    let left : Moment H := ⟨.leave, st'.leave⟩
    have hleave : Tallied st' [left] := ⟨rfl, trivial⟩
    have hinside : (st.counted.note entry).inside.commandCount = st.commandCount + 1 := rfl
    have hleft : st'.leave.commandCount = st'.commandCount := rfl
    refine ⟨⟨rfl, rfl, hleave.append hbody hcount⟩, ?_⟩
    rw [hleft, hcount, hinside, List.countP_cons_of_pos rfl,
      List.countP_cons_of_neg (by simp [Event.isCount]), List.countP_append, List.countP_singleton,
      if_neg (by simp [Event.isCount])]
    omega

/-! ## Calls -/

/-- Each call was counted, and while it was still allowed. -/
theorem calls_kept : Life.Kept (H := H) limits fun st _ trace st' =>
    st.commandCount + trace.countP (·.event.isCall) ≤ st'.commandCount ∧
      trace.countP (·.event.isCall) ≤ (limits.maxCommands - st.commandCount).toNat where
  done st := ⟨Nat.le_refl _, Nat.zero_le _⟩
  append := by
    rintro s t u asked asked' front back ⟨h, hmax⟩ ⟨h', hmax'⟩
    rw [List.countP_append]
    omega
  change := by
    intro st m quiet count _
    have hm : [m].countP (·.event.isCall) = 0 := by
      rcases quiet with hmark | hact
      · simp [hmark, Event.isCall]
      · simp [hact, Event.isCall]
    rw [hm, count]
    exact ⟨Nat.le_refl _, Nat.zero_le _⟩
  unknown _ := ⟨Nat.le_refl _, Nat.zero_le _⟩
  refused _ := ⟨Nat.le_succ _, Nat.zero_le _⟩
  called := by
    rintro st st' a handler args entry asked body _ within _ _ ⟨hbody, hmax⟩
    have hinside : (st.counted.note entry).inside.commandCount = st.commandCount + 1 := rfl
    have hleft : st'.leave.commandCount = st'.commandCount := rfl
    rw [hinside] at hbody hmax
    rw [List.countP_cons_of_neg (by simp [Event.isCall]), List.countP_cons_of_pos rfl,
      List.countP_append, List.countP_singleton, if_neg (by simp [Event.isCall]), hleft]
    omega

theorem depth_kept : Life.Kept (H := H) limits fun st _ trace st' =>
    st'.stack.depth = st.stack.depth ∧
      (st.stack.depth ≤ limits.maxDepth → ∀ m ∈ trace, m.state.stack.depth ≤ limits.maxDepth) where
  done _ := ⟨rfl, by simp⟩
  append := by
    rintro s t u asked asked' front back ⟨hdepth, h⟩ ⟨hdepth', h'⟩
    refine ⟨hdepth'.trans hdepth, ?_⟩
    intro hs m hm
    rcases List.mem_append.1 hm with hfront | hback
    · exact h hs m hfront
    · exact h' (hdepth ▸ hs) m hback
  change := by
    intro st m _ _ depth
    refine ⟨depth, ?_⟩
    intro hst m' hm'
    rw [List.mem_singleton.1 hm', depth]
    exact hst
  unknown _ := ⟨rfl, by simp⟩
  refused _ := ⟨rfl, by simp [State.counted]⟩
  called := by
    rintro st st' a handler args entry asked body _ _ shallow hdepth ⟨_, hbody⟩
    have hinside : (st.counted.note entry).inside.stack.depth = st.stack.depth + 1 :=
      st.stack.depth_push
    have hleft : st'.leave.stack.depth = st.stack.depth := ScopeStack.depth_drop hdepth
    have hallowed : ((st.stack.depth + 1 : Nat) : Int) ≤ limits.maxDepth := by omega
    refine ⟨hleft, ?_⟩
    intro hst
    refine List.forall_mem_cons.2 ⟨hst, List.forall_mem_cons.2 ⟨hinside ▸ hallowed, ?_⟩⟩
    refine List.forall_mem_append.2 ⟨hbody (hinside ▸ hallowed), ?_⟩
    intro m hm
    rw [List.mem_singleton.1 hm, hleft]
    exact hst

/-! ## Refusals -/

/-- No command is called. -/
def Uncalled (trace : List (Moment H)) : Prop :=
  ∀ m ∈ trace, m.event.isCall = false

theorem Limits.commandsError_ne_depthError (l : Limits) : l.commandsError ≠ l.depthError := by
  intro heq
  have hkind : "commands" = "depth" := (Error.executionLimit.inj heq).2
  exact absurd hkind (by decide)

namespace Dispatched

variable {st : State H} {words : List String} {asked : List (Attempt H)}
  {trace : List (Moment H)} {o : Outcome H Completion}

/-- A dispatch that calls nothing changes nothing but the count. -/
theorem unchanged (h : Dispatched limits words st asked trace o) (huncalled : Uncalled trace) :
    o.2 = st ∨ o.2 = st.counted := by
  cases h with
  | nameless => exact .inl rfl
  | unknown => exact .inl rfl
  | overCommands => exact .inr rfl
  | overDepth => exact .inr rfl
  | called entry outcome found within shallow life =>
      have hcall := huncalled _ (List.mem_cons_of_mem _ List.mem_cons_self)
      cases hcall

theorem of_absent {name : String} {args : List String}
    (h : Dispatched limits (name :: args) st asked trace o)
    (absent : st.commands.find? name = none) :
    trace = [] ∧ o = (.error (.script (.unknownCommand name)), st) := by
  cases h with
  | unknown => exact ⟨rfl, rfl⟩
  | overCommands args found beyond => cases absent.symm.trans found
  | overDepth args found within deep => cases absent.symm.trans found
  | called entry outcome found within shallow life => cases absent.symm.trans found

section

variable {name : String} {args : List String} {handler : Handler H}
  (h : Dispatched limits (name :: args) st asked trace o)
  (hfound : st.commands.find? name = some handler)

include h hfound

theorem refused_commands_iff :
    Uncalled trace ∧ o.1 = .error (.script limits.commandsError) ↔
      limits.maxCommands < st.commandCount + 1 := by
  cases h with
  | unknown args absent => cases hfound.symm.trans absent
  | overCommands args found beyond =>
      refine ⟨fun _ => beyond, fun _ => ⟨?_, rfl⟩⟩
      simp [Uncalled, Event.isCall]
  | overDepth args found within deep =>
      constructor
      · rintro ⟨_, heq⟩
        have herror := Fault.script.inj (Except.error.inj heq)
        exact absurd herror.symm limits.commandsError_ne_depthError
      · intro beyond
        omega
  | called entry outcome found within shallow life =>
      constructor
      · rintro ⟨huncalled, _⟩
        cases huncalled _ (List.mem_cons_of_mem _ List.mem_cons_self)
      · intro beyond
        omega

theorem refused_depth_iff :
    Uncalled trace ∧ o.1 = .error (.script limits.depthError) ↔
      st.commandCount + 1 ≤ limits.maxCommands ∧ limits.maxDepth ≤ st.stack.depth := by
  cases h with
  | unknown args absent => cases hfound.symm.trans absent
  | overCommands args found beyond =>
      constructor
      · rintro ⟨_, heq⟩
        have herror := Fault.script.inj (Except.error.inj heq)
        exact absurd herror limits.commandsError_ne_depthError
      · rintro ⟨within, _⟩
        omega
  | overDepth args found within deep =>
      refine ⟨fun _ => ⟨within, deep⟩, fun _ => ⟨?_, rfl⟩⟩
      simp [Uncalled, Event.isCall]
  | called entry outcome found within shallow life =>
      constructor
      · rintro ⟨huncalled, _⟩
        cases huncalled _ (List.mem_cons_of_mem _ List.mem_cons_self)
      · rintro ⟨_, deep⟩
        omega

end

end Dispatched

/-- **Both limits hold over the whole life of an interpreter**, whatever is asked of it and however
its commands call it again. The count never goes down, and tells how often a name that is known was
dispatched. There are never more calls than one limit says, and never more live scopes than the
other. A dispatch is refused because of the first limit exactly if it is counted beyond it, and
because of the second exactly if as many scopes are live; a name that is unknown is refused before
it is counted. A refusal leaves scopes, commands and output as they were. -/
theorem limits_hold_for_life (env : Env H) (hdepth : 1 ≤ env.limits.maxDepth)
    (hcommands : 0 ≤ env.limits.maxCommands) (commands : Table (Handler H))
    (stream : Option String) (ops : List Operation) :
    let start : State H := { commands := commands, stream := stream }
    let trace := env.moments ops start
    let final := ops.foldl env.after start
    (∃ asked, Life env.limits start asked trace final ∧
      final.commandCount = asked.countP Attempt.registered) ∧
    (trace.map (·.state.commandCount)).Pairwise (· ≤ ·) ∧
    (∀ front m back, trace = front ++ m :: back →
      m.state.commandCount = (front ++ [m]).countP (·.event.isCount)) ∧
    trace.countP (·.event.isCall) ≤ env.limits.maxCommands ∧
    (∀ m ∈ trace, m.state.stack.depth ≤ env.limits.maxDepth) ∧
    ∀ (st : State H) name args,
      let o := env.dispatch (name :: args) st
      let uncalled := Uncalled (env.dispatchMoments (name :: args) st)
      (∀ handler, st.commands.find? name = some handler →
        (uncalled ∧ o.1 = .error (.script env.limits.commandsError) ↔
          env.limits.maxCommands < st.commandCount + 1) ∧
        (uncalled ∧ o.1 = .error (.script env.limits.depthError) ↔
          st.commandCount + 1 ≤ env.limits.maxCommands ∧
            env.limits.maxDepth ≤ st.stack.depth)) ∧
      (st.commands.find? name = none →
        uncalled ∧ o.1 = .error (.script (.unknownCommand name)) ∧ o.2 = st) ∧
      (uncalled → o.2.stack = st.stack ∧ o.2.commands = st.commands ∧ o.2.output = st.output ∧
        o.2.stream = st.stream) := by
  intro start trace final
  obtain ⟨asked, hlife⟩ := env.life ops start
  obtain ⟨htallied, _⟩ := tallied_kept.life hlife
  obtain ⟨_, hcalls⟩ := calls_kept.life hlife
  obtain ⟨_, hscopes⟩ := depth_kept.life hlife
  refine ⟨⟨asked, hlife, ?_⟩, htallied.pairwise, ?_, ?_, hscopes hdepth, ?_⟩
  · exact (asked_kept.life hlife).trans (Nat.zero_add _)
  · intro front m back heq
    have htrace : Tallied start (front ++ m :: back) := heq ▸ htallied
    exact htrace.at_moment.trans (Nat.zero_add _)
  · have hzero : start.commandCount = 0 := rfl
    rw [hzero] at hcalls
    show ((env.moments ops start).countP (·.event.isCall) : Int) ≤ env.limits.maxCommands
    omega
  · intro st name args o uncalled
    obtain ⟨_, hdispatch⟩ := env.dispatch_dispatched (name :: args) st
    refine ⟨?_, ?_, ?_⟩
    · intro handler hfound
      exact ⟨hdispatch.refused_commands_iff hfound, hdispatch.refused_depth_iff hfound⟩
    · intro habsent
      obtain ⟨htrace, ho⟩ := hdispatch.of_absent habsent
      refine ⟨?_, congrArg Prod.fst ho, congrArg Prod.snd ho⟩
      show Uncalled (env.dispatchMoments (name :: args) st)
      rw [htrace]
      simp [Uncalled]
    · intro huncalled
      rcases hdispatch.unchanged huncalled with hsame | hcounted
      · rw [hsame]
        exact ⟨rfl, rfl, rfl, rfl⟩
      · rw [hcounted]
        exact ⟨rfl, rfl, rfl, rfl⟩

/-- A command that has a script call it again and then dispatches itself, whatever becomes of that.
It is dispatched nine times, and three times it is called. -/
theorem limits_hold_for_command_calling_itself :
    let env : Env Unit :=
      { limits := { maxCommands := 5, maxDepth := 3 }
        host := fun _ _ =>
          .ask (.evaluate "again") fun _ => .ask (.dispatch ["again"]) fun _ => .text "done"
        fresh := {} }
    let start : State Unit := { commands := Table.ofList [("again", .host ())] }
    let ops : List Operation := [.evaluate "again; again", .dispatch ["again"]]
    let trace := env.moments ops start
    1 ≤ env.limits.maxDepth ∧ 0 ≤ env.limits.maxCommands ∧
    (ops.foldl env.after start).commandCount = 9 ∧ trace.countP (·.event.isCall) = 3 ∧
    (trace.map (·.state.commandCount)).Pairwise (· ≤ ·) ∧
    trace.countP (·.event.isCall) ≤ env.limits.maxCommands ∧
    ∀ m ∈ trace, m.state.stack.depth ≤ env.limits.maxDepth := by
  intro env start ops trace
  have hdepth : 1 ≤ env.limits.maxDepth := by decide
  have hcommands : 0 ≤ env.limits.maxCommands := by decide
  obtain ⟨_, hnever, _, hcalls, hscopes, _⟩ :=
    limits_hold_for_life env hdepth hcommands start.commands none ops
  exact ⟨hdepth, hcommands, by decide +kernel, by decide +kernel, hnever, hcalls, hscopes⟩

end EmbeddedTcl
