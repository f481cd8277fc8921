import EmbeddedTcl.Proofs.Judge
import EmbeddedTcl.Session

/-!
# Returns

What a return does to the script it is in, and what it leaves behind. The marker for a return that
is pending is right wherever evaluation succeeds: it stands for the embedded commands of the words
being read, every command starts without it, and none is left at the end. It is not taken back when
a fault strikes while words are being read, and `evaluate_leaves_marker_iff` says exactly when that
leaves one behind.
-/

namespace EmbeddedTcl

variable {H α : Type}

/-! ## Every command starts with no return pending -/

/-- If a command starts here, no return is pending. -/
def Moment.Quiet (m : Moment H) : Prop :=
  ∀ handler args, m.event = .call handler args → m.state.pendingReturn = false

theorem Moment.Quiet.of_ne {m : Moment H} (h : ∀ handler args, m.event ≠ .call handler args) :
    m.Quiet :=
  fun handler args hcall => absurd hcall (h handler args)

def Quiet (trace : List (Moment H)) : Prop :=
  ∀ m ∈ trace, m.Quiet

theorem Quiet.nil : Quiet ([] : List (Moment H)) := by
  simp [Quiet]

theorem Quiet.cons {m : Moment H} {more : List (Moment H)} (h : m.Quiet) (h' : Quiet more) :
    Quiet (m :: more) :=
  List.forall_mem_cons.2 ⟨h, h'⟩

theorem Quiet.append {front back : List (Moment H)} (h : Quiet front) (h' : Quiet back) :
    Quiet (front ++ back) :=
  List.forall_mem_append.2 ⟨h, h'⟩

theorem Moment.Quiet.mark (st : State H) : (⟨.mark, st⟩ : Moment H).Quiet :=
  of_ne (by simp)

/-- A tracer of commands that are all quiet if the first of them is. -/
def Tracer.Quiet (t : Tracer H) : Prop :=
  ∀ words st, st.pendingReturn = false → EmbeddedTcl.Quiet (t words st)

theorem Quiet.stretches :
    Stretches fun (_ : State H) (trace : List (Moment H)) (_ : State H) => Quiet trace where
  nil _ := .nil
  append := .append
  mark _ _ := .cons (.mark _) .nil

theorem Script.trace_quiet {d : Dispatcher H} {t : Tracer H} (ht : t.Quiet) (script : Script)
    (st : State H) : Quiet (script.trace d t st) :=
  script.trace_has Quiet.stretches ht {} st

theorem Acts.quiet {trace : List (Moment H)} (h : Acts trace) : Quiet trace := by
  intro m hm handler args hcall
  rw [h m hm] at hcall
  cases hcall

theorem Handler.trace_quiet {d : Dispatcher Empty} {t : Tracer Empty} (ht : t.Quiet)
    (args : List String) (st : State Empty) (handler : Handler Empty) :
    Quiet (handler.trace d t args st) := by
  cases handler with
  | builtin b => exact (b.trace_acts args st).quiet
  | procedure p => exact (traceBind_acts _ st).quiet.append (Script.trace_quiet ht _ _)
  | host h => exact h.elim

theorem traceEnter_quiet (env : Env Empty) (renewed : Evaluator Empty)
    {inner : Option (Dispatcher Empty × Tracer Empty)} (h : ∀ p ∈ inner, p.2.Quiet) :
    (traceEnter env renewed inner).Quiet := by
  intro words st hclean
  cases words with
  | nil => exact .nil
  | cons name args =>
      rw [traceEnter]
      cases st.commands.find? name with
      | none => exact .nil
      | some handler =>
          refine .cons (Moment.Quiet.of_ne (by simp)) ?_
          split
          · exact .nil
          · cases inner with
            | none => exact .nil
            | some p =>
                -- counting, logging and a new scope do not touch the marker
                refine .cons (fun _ _ _ => hclean) ?_
                exact (handler.trace_quiet (h p rfl) args _).append
                  (.cons (Moment.Quiet.of_ne (by simp)) .nil)

theorem traceWith_quiet (env : Env Empty) (renewed : Evaluator Empty) (room : Nat) :
    (traceWith env renewed room).Quiet := by
  induction room with
  | zero => exact traceEnter_quiet env renewed (by simp)
  | succ room ih =>
      refine traceEnter_quiet env renewed ?_
      rintro p ⟨⟩
      exact ih

/-! ## What a script makes of returns -/

/-- A procedure keeps the returns of its body to itself. -/
theorem callHandler_procedure {env : Env H} {d : Dispatcher H} {renewed : Evaluator H}
    (hlow : d.Keeps fun st => st.returnFlag = false) {p : Procedure} {args : List String}
    {st : State H} {completion : Completion}
    (h : (callHandler env d renewed (.procedure p) args st).1 = .ok completion) :
    completion.returning = false := by
  rw [callHandler_eq, Handler.run_procedure] at h
  have hdown : { st.inside with stack := st.inside.stack.bind p.params args }.returnFlag = false :=
    rfl
  have hflag := evaluateScript_keeps returnFlag_unmarked hlow p.body hdown
  generalize evaluateScript d p.body _ = o at h hflag
  rcases o with ⟨fault | value, st'⟩
  · cases h
  · cases h
    exact hflag

theorem dispatchWith_procedure {env : Env H} {renewed : Evaluator H} {room : Nat} {name : String}
    {args : List String} {p : Procedure} {st : State H} {completion : Completion}
    (hfind : st.commands.find? name = some (.procedure p))
    (h : (dispatchWith env renewed room (name :: args) st).1 = .ok completion) :
    completion.returning = false := by
  cases room with
  | zero =>
      rw [dispatchWith, enter, hfind] at h
      dsimp only at h
      split at h <;> cases h
  | succ room =>
      rw [dispatchWith, enter, hfind] at h
      dsimp only at h
      split at h
      · cases h
      · exact callHandler_procedure (dispatchWith_keeps_flag env renewed room) h

/-- **Returns.** Where no return is pending, a script is evaluated just as it is without a marker:
it ends with a command that was run without a fault if and only if that command returned or a
command embedded in its words did, at any depth. Procedures never return. No command starts with a
return pending, and none is left when the script has been evaluated without a fault. -/
theorem evaluateScript_eq_markerless (env : Env Empty) (script : String) {st : State Empty}
    (h : st.pendingReturn = false) :
    env.evaluateScript script st = (env.judgeScript script st).shown runView ∧
    (∀ completion, (env.evaluateScript script st).1 = .ok completion →
      (env.evaluateScript script st).2.pendingReturn = false) ∧
    (∀ (s : State Empty) (name : String) (args : List String) (p : Procedure)
        (completion : Completion), s.commands.find? name = some (.procedure p) →
      (env.dispatch (name :: args) s).1 = .ok completion → completion.returning = false) ∧
    Path st (env.traceScript script st) (env.evaluateScript script st).2 ∧
    ∀ m ∈ env.traceScript script st, ∀ handler args, m.event = .call handler args →
      m.state.pendingReturn = false := by
  obtain ⟨heq, hclean⟩ := env.evaluateScript_shown script h
  refine ⟨heq, ?_, ?_, env.traceScript_path script st, ?_⟩
  · intro completion hok
    rw [heq] at hok ⊢
    generalize env.judgeScript script st = r at hok hclean ⊢
    rcases r with ⟨failure | value, st'⟩
    · cases hok
    · exact hclean
  · intro s name args p completion hfind hok
    rw [Env.dispatch, Env.entry_eq] at hok
    exact dispatchWith_procedure hfind hok
  · exact Script.trace_quiet (traceWith_quiet env env.afresh _) _ st

/-- A host that adds nothing to the language. -/
def Config.bare : Config Empty := { host := fun h => h.elim }

/-- The interpreter that such a host starts with. -/
def State.initial : State Empty := (Config.bare.start false).state

/-- A return two brackets deep ends the script after its command. The one in the body of `f` does
not, and the fourth command is not run. -/
theorem evaluateScript_embedded_return :
    let script := "proc f x return; set a [f]; set b [set c [return 2]]; set d 3"
    State.initial.pendingReturn = false ∧
    (Config.bare.env.evaluateScript script State.initial).1.toOption = some ⟨"2", true⟩ ∧
    Config.bare.env.evaluateScript script State.initial =
      (Config.bare.env.judgeScript script State.initial).shown runView :=
  ⟨rfl, by decide +kernel, (evaluateScript_eq_markerless Config.bare.env _ rfl).1⟩

/-! ## What a return leaves behind -/

/-- **A marker that is left behind.** After an evaluation the return flag is down. The marker for a
pending return is down too, unless the evaluation has failed while the words of a command were read
in which an embedded command, at whatever depth, had returned; it is up in that case. -/
theorem evaluate_leaves_marker_iff (env : Env Empty) (script : String) {st : State Empty}
    (hpending : st.pendingReturn = false) (hflag : st.returnFlag = false) :
    (env.evaluate script st).2.returnFlag = false ∧
    ((env.evaluate script st).2.pendingReturn = true ↔
      ∃ failure, (env.judgeScript script st).1 = .error failure ∧
        ∃ completion ∈ failure.embedded, completion.returning = true) ∧
    { (env.evaluate script st).2 with pendingReturn := false } = (env.judgeScript script st).2 := by
  refine ⟨evaluate_keeps returnFlag_unmarked (env.entry_keeps_flag st) script hflag, ?_⟩
  obtain ⟨heq, hclean⟩ := env.evaluateScript_shown script hpending
  rw [Env.evaluate_eq, State.clear_pending hpending, Outcome.snd_map, heq]
  generalize env.judgeScript script st = r at hclean ⊢
  rcases r with ⟨failure | completion, st'⟩
  · refine ⟨?_, State.marked_clear st' failure.embedded hclean⟩
    simp [Judged.shown, State.marked]
  · refine ⟨?_, State.clear_pending hclean⟩
    simpa [Judged.shown, runView] using hclean

/-- A variable that is not there, after a return in the words of the same command. -/
theorem evaluate_leaves_marker_unknown_variable :
    State.initial.pendingReturn = false ∧ State.initial.returnFlag = false ∧
    ∃ failure, (Config.bare.env.judgeScript "set a [return x] $nosuch" State.initial).1 =
        .error failure ∧
      ∃ completion ∈ failure.embedded, completion.returning = true :=
  ⟨rfl, rfl, (evaluate_leaves_marker_iff Config.bare.env "set a [return x] $nosuch" rfl rfl).2.1.1
    (by decide +kernel)⟩

/-- The marker that a failed evaluation leaves behind ends the next script after its first command,
where it would have gone on otherwise. -/
theorem left_marker_ends_next_script :
    (Config.bare.env.evaluate "set a [return x] $nosuch" State.initial).2.pendingReturn = true ∧
    (Config.bare.env.evaluateScript "set b 1; set c 2"
      (Config.bare.env.evaluate "set a [return x] $nosuch" State.initial).2).1.toOption =
        some ⟨"1", true⟩ ∧
    (Config.bare.env.evaluateScript "set b 1; set c 2"
      (Config.bare.env.judgeScript "set a [return x] $nosuch" State.initial).2).1.toOption =
        some ⟨"2", false⟩ := by
  decide +kernel

end EmbeddedTcl
