import EmbeddedTcl.CommandLine.Run
import EmbeddedTcl.Proofs.Safety

/-!
# Two ways of output

Output goes to a stream at once, or is kept until a run is over. Nothing that a script does depends
on which of the two it is. So of two sessions that differ in this alone, one that evaluates scripts
and sends what they write to its stream, and one that runs the same scripts and collects what they
write, do the same script by script; and the command line, which is a session of the first kind, can
be read off one of the second.
-/

namespace EmbeddedTcl

variable {H : Type}

/-! ## The same evaluation with output elsewhere -/

/-- Two states that differ in their output only. The same text was sent to the stream of the first
one, after `sent`, and is kept by the second one, after `waiting`. What the first one keeps is left
over from before and stays. -/
def Beside (sent kept waiting : String) (s s' : State H) : Prop :=
  ∃ (core : State H) (text : String),
    s = { core with stream := some (sent ++ text), output := kept } ∧
      s' = { core with stream := none, output := waiting ++ text }

section

variable {sent kept waiting : String}

theorem Beside.lockstep : Lockstep (Beside sent kept waiting : State H → State H → Prop) where
  pending_eq := by
    rintro _ _ ⟨core, text, rfl, rfl⟩
    rfl
  lookup_eq := by
    rintro _ _ name ⟨core, text, rfl, rfl⟩
    rfl
  mark := by
    rintro _ _ pending ⟨core, text, rfl, rfl⟩
    exact ⟨{ core with pendingReturn := pending }, text, rfl, rfl⟩

theorem Beside.write {s s' : State H} (h : Beside sent kept waiting s s') (more : String) :
    Beside sent kept waiting (s.write more) (s'.write more) := by
  obtain ⟨core, text, rfl, rfl⟩ := h
  refine ⟨core, text ++ more, ?_, ?_⟩
  · simp only [State.write, String.append_assoc]
  · simp only [State.write, String.append_assoc]

theorem Beside.linkGlobals (names : List String) :
    ∀ {s s' : State H}, Beside sent kept waiting s s' →
      Beside sent kept waiting (Builtin.linkGlobals s names) (Builtin.linkGlobals s' names) := by
  induction names with
  | nil => exact fun h => h
  | cons name more ih =>
      rintro _ _ ⟨core, text, rfl, rfl⟩
      exact ih ⟨Builtin.linkGlobals core [name], text, rfl, rfl⟩

/-- Built-ins do the same, wherever output goes. -/
theorem Beside.builtin (b : Builtin) (args : List String) {s s' : State H}
    (h : Beside sent kept waiting s s') :
    Outcome.Agree (Beside sent kept waiting) (b.run args s) (b.run args s') := by
  have hstack : s.stack = s'.stack := by
    obtain ⟨core, text, rfl, rfl⟩ := h
    rfl
  unfold Builtin.run
  split
  case h_1 name => exact ⟨by rw [hstack], h⟩
  case h_2 name text =>
    rw [hstack]
    split
    · obtain ⟨core, text, rfl, rfl⟩ := h
      exact ⟨rfl, { core with stack := _ }, text, rfl, rfl⟩
    · exact ⟨rfl, h⟩
  case h_3 => exact ⟨rfl, h.linkGlobals args⟩
  case h_4 text => exact ⟨rfl, h.write _⟩
  case h_5 text => exact ⟨rfl, h.write text⟩
  case h_6 name params body =>
    obtain ⟨core, text, rfl, rfl⟩ := h
    exact ⟨rfl, (core.note (.defining name params)).register name _, text, rfl, rfl⟩
  case h_7 =>
    obtain ⟨core, text, rfl, rfl⟩ := h
    exact ⟨rfl, { core with returnFlag := true }, text, rfl, rfl⟩
  case h_8 =>
    obtain ⟨core, text, rfl, rfl⟩ := h
    exact ⟨rfl, { core with returnFlag := true }, text, rfl, rfl⟩
  case h_9 => exact ⟨rfl, h⟩

section

variable (env : Env Empty) {d : Dispatcher Empty} (renewed : Evaluator Empty)

theorem Beside.handler (hd : Dispatchers.Agree (Beside sent kept waiting) d d) (args : List String)
    (handler : Handler Empty) {s s' : State Empty} (h : Beside sent kept waiting s s') :
    Outcome.Agree (Beside sent kept waiting) (handler.run env d renewed args s)
      (handler.run env d renewed args s') := by
  cases handler with
  | builtin b =>
      rw [Handler.run_builtin, Handler.run_builtin]
      exact (h.builtin b args).map _
  | procedure p =>
      rw [Handler.run_procedure, Handler.run_procedure]
      refine (evaluateScript_agree Beside.lockstep hd p.body ?_).map _
      obtain ⟨core, text, rfl, rfl⟩ := h
      exact ⟨{ core with stack := core.stack.bind p.params args }, text, rfl, rfl⟩
  | host h => exact h.elim

theorem Beside.call (hd : Dispatchers.Agree (Beside sent kept waiting) d d) (args : List String)
    (handler : Handler Empty) {s s' : State Empty} (h : Beside sent kept waiting s s') :
    Outcome.Agree (Beside sent kept waiting) (callHandler env d renewed handler args s)
      (callHandler env d renewed handler args s') := by
  have hinside : Beside sent kept waiting s.inside s'.inside := by
    obtain ⟨core, text, rfl, rfl⟩ := h
    exact ⟨core.inside, text, rfl, rfl⟩
  rw [callHandler_eq, callHandler_eq]
  have hrun := hinside.handler env renewed hd args handler
  generalize handler.run env d renewed args s.inside = o at hrun ⊢
  generalize handler.run env d renewed args s'.inside = o' at hrun ⊢
  obtain ⟨outcome, _⟩ := o
  obtain ⟨_, _⟩ := o'
  obtain ⟨rfl, core, text, rfl, rfl⟩ := hrun
  exact ⟨rfl, core.leave, text, rfl, rfl⟩

theorem Beside.enter {inner : Option (Dispatcher Empty)}
    (hd : ∀ d ∈ inner, Dispatchers.Agree (Beside sent kept waiting) d d) :
    Dispatchers.Agree (Beside sent kept waiting) (enter env renewed inner)
      (enter env renewed inner) := by
  rintro words s s' h _
  obtain ⟨core, text, hs, hs'⟩ := h
  have hcommands : s.commands = s'.commands := by rw [hs, hs']
  have hcount : s.commandCount = s'.commandCount := by rw [hs, hs']
  have hcounted : Beside sent kept waiting s.counted s'.counted := by
    rw [hs, hs']
    exact ⟨core.counted, text, rfl, rfl⟩
  refine Outcome.AgreeUnless.agree (enter_agreeUnless env renewed words ⟨core, text, hs, hs'⟩
    hcommands hcount (fun _ => .pure hcounted _) ?_)
  intro _ name args handler _ _
  cases inner with
  | none => exact .pure hcounted _
  | some d =>
      refine .inl (Beside.call env renewed (hd d rfl) args handler ?_)
      rw [hs, hs']
      exact ⟨core.counted.note (.dispatching name args core.stack.depth), text, rfl, rfl⟩

theorem Beside.dispatch (room : Nat) :
    Dispatchers.Agree (Beside sent kept waiting) (dispatchWith env renewed room)
      (dispatchWith env renewed room) := by
  induction room with
  | zero => exact Beside.enter env renewed (by simp)
  | succ room ih =>
      refine Beside.enter env renewed ?_
      rintro d ⟨⟩
      exact ih

end

/-- **Where output goes makes no difference to an evaluation.** -/
theorem Beside.evaluate (env : Env Empty) (script : String) {s s' : State Empty}
    (h : Beside sent kept waiting s s') :
    Outcome.Agree (Beside sent kept waiting) (env.evaluate script s) (env.evaluate script s') := by
  have hdepth : s.stack.depth = s'.stack.depth := by
    obtain ⟨core, text, rfl, rfl⟩ := h
    rfl
  rw [Env.evaluate, Env.evaluate, env.entry_eq, env.entry_eq, hdepth]
  exact evaluate_agree Beside.lockstep (Beside.dispatch env env.afresh _) script h

end

/-- A script gives the value that it ends with, be it by a return or not. -/
theorem Env.evaluate_of_completion (env : Env H) {script : String} {st : State H}
    {completion : Completion}
    (h : (env.evaluateScript script { st with pendingReturn := false }).1 = .ok completion) :
    (env.evaluate script st).1 = .ok completion.value := by
  rw [Env.evaluate_eq]
  generalize env.evaluateScript script { st with pendingReturn := false } = o at h ⊢
  obtain ⟨_, st'⟩ := o
  dsimp only at h
  rw [h]
  rfl

/-! ## Logs only grow -/

theorem Step.log_suffix {st : State H} {m : Moment H} (step : Step st m) :
    st.log <:+ m.state.log := by
  cases step with
  | write text =>
      obtain ⟨stream, output, heq⟩ := st.write_eq text
      have hlog : (st.write text).log = st.log := by rw [heq]
      exact hlog ▸ List.suffix_rfl
  | call | link => exact List.suffix_cons _ _
  | register entry => exact (List.suffix_cons entry _).trans (List.suffix_cons _ _)
  | _ => exact List.suffix_rfl

theorem Env.log_suffix (env : Env Empty) (script : String) (st : State Empty) :
    st.log <:+ (env.evaluate script st).2.log := by
  have hstep : ∀ {s : State Empty} {m : Moment Empty}, Step s m → st.log <:+ s.log →
      st.log <:+ m.state.log :=
    fun step hs => hs.trans step.log_suffix
  exact ((env.traceEvaluate_path script st).invariant hstep List.suffix_rfl).2

/-! ## Two sessions -/

/-- The result of a run in which the script comes to an outcome and writes a text. -/
def RunResult.telling (outcome : Except Fault String) (stdout : String) : RunResult :=
  match outcome with
  | .ok value => { result := value, stdout := stdout }
  | .error fault =>
    { stdout := stdout, stderr := "error: " ++ fault.message ++ "\n", exitCode := 1 }

namespace Session

theorem run_telling {s : Session Empty} (h : s.state.AtRest) (script : String) :
    let o := s.config.env.evaluate script { s.state with output := "" }
    s.run script =
      (.ok (.telling o.1 o.2.output), { s with state := { o.2 with output := "" } }) := by
  intro o
  rcases run_eq h script with ⟨text, htext, hrun⟩ | ⟨error, herror, hrun⟩
  · rw [hrun, show o.1 = _ from htext]
    rfl
  · rw [hrun, show o.1 = _ from herror]
    rfl

/-- What a run logs comes after all that was logged before it. -/
theorem append_loggedSince_run {s : Session Empty} (h : s.state.AtRest) (script : String) :
    s.state.log.reverse ++ (s.run script).2.loggedSince s = (s.run script).2.state.log.reverse := by
  obtain ⟨new, hnew⟩ := s.config.env.log_suffix script { s.state with output := "" }
  have hlog : (s.run script).2.state.log = new ++ s.state.log := by
    rw [run_telling h]
    exact hnew.symm
  rw [loggedSince, hlog, List.length_append, Nat.add_sub_cancel, List.take_left,
    List.reverse_append]

/-- Two sessions that differ in their output only: the first one has sent `sent` to a stream. -/
structure Apart (sent : String) (s b : Session Empty) : Prop where
  config : b.config = s.config
  state : ∃ output, b.state = { s.state with stream := none, output := output }
  stream : s.state.stream = some sent
  atRest : s.state.AtRest

namespace Apart

variable {sent : String} {s b : Session Empty}

theorem start (c : Config Empty) : Apart "" (c.start true) (c.start false) where
  config := rfl
  state := ⟨"", rfl⟩
  stream := rfl
  atRest := ⟨c.fresh_scoped, rfl⟩

theorem atRest_buffered (h : Apart sent s b) : b.state.AtRest := by
  obtain ⟨output, hstate⟩ := h.state
  rw [hstate]
  exact ⟨h.atRest.links, h.atRest.current⟩

/-- Whatever output the second session has waiting. -/
theorem beside (h : Apart sent s b) (waiting : String) :
    Beside sent s.state.output waiting s.state { b.state with output := waiting } := by
  obtain ⟨output, hstate⟩ := h.state
  refine ⟨{ s.state with stream := none, output := "" }, "", ?_, ?_⟩
  · have hsent : s.state.stream = some (sent ++ "") := by
      rw [h.stream, String.append_empty]
    rw [← hsent]
  · rw [hstate, String.append_empty]

/-- The two sessions do the same with a script, and the second one collects what the first one
sends. -/
theorem step (h : Apart sent s b) (script : String) :
    ∃ text, (b.run script).1 = .ok (.telling (s.eval script).1 text) ∧
      (b.eval script).1 = (s.eval script).1 ∧
      Apart (sent ++ text) (s.eval script).2 (b.run script).2 := by
  have hrest := h.atRest.evaluate s.config.env script
  have hwaiting := (h.beside b.state.output).evaluate s.config.env script
  obtain ⟨houtcome, core, text, hsent, hkept⟩ := (h.beside "").evaluate s.config.env script
  rw [String.empty_append] at hkept
  rw [run_telling h.atRest_buffered, eval_eq h.atRest, eval_eq h.atRest_buffered, h.config]
  refine ⟨text, ?_, hwaiting.1.symm, ?_⟩
  · rw [houtcome, hkept]
  · refine ⟨rfl, ⟨"", ?_⟩, ?_, hrest⟩
    · dsimp only
      rw [hsent, hkept]
    · dsimp only
      rw [hsent]

/-- Two sessions that do the same log the same. -/
theorem loggedSince_eq {sent' : String} {s' b' : Session Empty} (h : Apart sent s b)
    (h' : Apart sent' s' b') : s'.loggedSince s = b'.loggedSince b := by
  obtain ⟨output, hstate⟩ := h.state
  obtain ⟨output', hstate'⟩ := h'.state
  rw [loggedSince, loggedSince, hstate, hstate']

end Apart

/-! ## Scripts one after the other -/

/-- The session after scripts were evaluated in it. -/
def afterEvals (s : Session H) (scripts : List String) : Session H :=
  scripts.foldl (fun s script => (s.eval script).2) s

/-- The session after scripts were run in it. -/
def afterRuns (s : Session H) (scripts : List String) : Session H :=
  scripts.foldl (fun s script => (s.run script).2) s

/-- Runs scripts up to and including the first that fails, and gives the results. -/
def runToFailure (s : Session H) : List String → List RunResult × Session H
  | [] => ([], s)
  | script :: rest =>
    match s.run script with
    | (.ok r, s') =>
      if r.exitCode = 0 then (r :: (runToFailure s' rest).1, (runToFailure s' rest).2)
      else ([r], s')
    | (.error _, s') => ([], s')

/-- What each of these runs logs. -/
def runLogs (s : Session H) : List String → List (List LogEntry)
  | [] => []
  | script :: rest =>
    match s.run script with
    | (.ok r, s') => s'.loggedSince s :: if r.exitCode = 0 then runLogs s' rest else []
    | (.error _, s') => [s'.loggedSince s]

/-- What became of scripts that were run up to the first failure: `message` is that of the last one,
if it failed. -/
def Ran (scripts : List String) (results : List RunResult) (message : Option String) : Prop :=
  match message with
  | none => results.length = scripts.length ∧ ∀ r ∈ results, r.exitCode = 0
  | some message => ∃ front last, results = front ++ [last] ∧ front.length < scripts.length ∧
      (∀ r ∈ front, r.exitCode = 0) ∧ last.exitCode = 1 ∧
      last.stderr = "error: " ++ message ++ "\n"

theorem Ran.cons {scripts : List String} {results : List RunResult} {message : Option String}
    (h : Ran scripts results message) (script : String) {r : RunResult} (hr : r.exitCode = 0) :
    Ran (script :: scripts) (r :: results) message := by
  cases message with
  | none =>
      obtain ⟨hlength, hall⟩ := h
      exact ⟨congrArg (· + 1) hlength, List.forall_mem_cons.2 ⟨hr, hall⟩⟩
  | some message =>
      obtain ⟨front, last, rfl, hlength, hall, hlast⟩ := h
      have hfront : ∀ ran ∈ r :: front, ran.exitCode = 0 := List.forall_mem_cons.2 ⟨hr, hall⟩
      exact ⟨r :: front, last, rfl, Nat.succ_lt_succ hlength, hfront, hlast⟩

namespace Apart

theorem each (scripts : List String) :
    ∀ {sent : String} {s b : Session Empty}, Apart sent s b →
      ∃ sent', Apart sent' (s.afterEvals scripts) (b.afterRuns scripts) := by
  induction scripts with
  | nil => exact fun h => ⟨_, h⟩
  | cons script more ih =>
      intro sent s b h
      obtain ⟨text, _, _, hnext⟩ := h.step script
      exact ih hnext

/-- A command line that sends its output to a stream prints what runs of its scripts collect, and
logs what they log. -/
theorem evalAll_ran (scripts : List String) :
    ∀ {sent : String} {s b : Session Empty}, Apart sent s b →
      Apart (sent ++ String.join ((b.runToFailure scripts).1.map RunResult.stdout))
          (CommandLine.evalAll s scripts).session (b.runToFailure scripts).2 ∧
        Ran scripts (b.runToFailure scripts).1 (CommandLine.evalAll s scripts).failure ∧
        (CommandLine.evalAll s scripts).logs = b.runLogs scripts := by
  induction scripts with
  | nil =>
      intro sent s b h
      refine ⟨?_, ⟨rfl, by simp [runToFailure]⟩, rfl⟩
      rw [runToFailure, List.map_nil, String.join_nil, String.append_empty]
      exact h
  | cons script more ih =>
      intro sent s b h
      obtain ⟨text, hrun, _, hnext⟩ := h.step script
      have hlogged := h.loggedSince_eq hnext
      rw [runToFailure, runLogs, CommandLine.evalAll]
      generalize b.run script = ran at hrun hnext hlogged ⊢
      generalize s.eval script = evaluated at hrun hnext hlogged ⊢
      obtain ⟨_, b'⟩ := ran
      obtain ⟨outcome, s'⟩ := evaluated
      dsimp only at hrun hnext hlogged
      subst hrun
      cases outcome with
      | ok value =>
          obtain ⟨hstream, hran, hlogs⟩ := ih hnext
          refine ⟨?_, hran.cons script rfl, ?_⟩
          · dsimp only [RunResult.telling]
            rw [if_pos rfl, List.map_cons, String.join_cons, ← String.append_assoc]
            exact hstream
          · dsimp only [RunResult.telling]
            rw [if_pos rfl, hlogged, hlogs]
      | error fault =>
          have hfails : ¬ (RunResult.telling (.error fault) text).exitCode = 0 := nofun
          dsimp only
          rw [if_neg hfails, if_neg hfails, hlogged, List.map_cons, List.map_nil, String.join_cons,
            String.join_nil, String.append_empty]
          exact ⟨hnext, ⟨[], _, rfl, Nat.succ_pos _, by simp, rfl, rfl⟩, rfl⟩

/-- There is one log for each run, and together they are all that is logged. -/
theorem flatten_runLogs (scripts : List String) :
    ∀ {sent : String} {s b : Session Empty}, Apart sent s b →
      (b.runLogs scripts).length = (b.runToFailure scripts).1.length ∧
        b.state.log.reverse ++ (b.runLogs scripts).flatten =
          (b.runToFailure scripts).2.state.log.reverse := by
  induction scripts with
  | nil =>
      intro sent s b h
      exact ⟨rfl, List.append_nil _⟩
  | cons script more ih =>
      intro sent s b h
      obtain ⟨text, hrun, _, hnext⟩ := h.step script
      have hlog := append_loggedSince_run h.atRest_buffered script
      rw [runToFailure, runLogs]
      generalize b.run script = ran at hrun hnext hlog ⊢
      obtain ⟨_, b'⟩ := ran
      dsimp only at hrun hnext hlog
      subst hrun
      obtain ⟨hlength, hmore⟩ := ih hnext
      dsimp only
      split
      · refine ⟨congrArg (· + 1) hlength, ?_⟩
        rw [List.flatten_cons, ← List.append_assoc, hlog, hmore]
      · refine ⟨rfl, ?_⟩
        rw [List.flatten_cons, List.flatten_nil, List.append_nil, hlog]

end Apart

end Session

/-! ## The command line -/

namespace CommandLine

/-- The session of a command line, but for output, which it keeps. -/
def buffered : Session Empty :=
  ({ host := nofun } : Config Empty).start false

theorem apart_buffered : Session.Apart "" session buffered :=
  .start _

/-- When all files can be read, what is printed is what runs of the scripts collect. -/
theorem evaluate_ran (opening : String) (read : String → Contents) (options : Options)
    {texts : List String} (htexts : options.files.mapM (readScript read) = .ok texts) :
    let scripts := texts ++ options.command.toList
    let ran := buffered.runToFailure scripts
    let printed := String.join (ran.1.map RunResult.stdout)
    let log := shownLog opening options (buffered.runLogs scripts)
    ∃ message, Session.Ran scripts ran.1 message ∧
      evaluate opening read options =
        match message with
        | none => .exit 0 printed log
        | some message => .exit 1 printed (log ++ errorLine message) := by
  intro scripts ran printed log
  obtain ⟨hapart, hran, hlogs⟩ := Session.Apart.evalAll_ran scripts apart_buffered
  have hstream : (evalAll session scripts).session.state.stream = some printed :=
    hapart.stream.trans (congrArg some (String.empty_append ..))
  refine ⟨(evalAll session scripts).failure, hran, ?_⟩
  rw [evaluate, htexts]
  dsimp only
  rw [hlogs, hstream]
  cases (evalAll session scripts).failure <;> rfl

/-- The first file that cannot be read decides. -/
theorem mapM_eq_error {α β ε : Type} {f : α → Except ε β} {bad : α} {reason : ε}
    (hbad : f bad = .error reason) (back : List α) :
    ∀ {front : List α}, (∀ x ∈ front, ∃ y, f x = .ok y) →
      (front ++ bad :: back).mapM f = .error reason
  | [], _ => by
      rw [List.nil_append, List.mapM_cons, hbad]
      rfl
  | x :: front, hfront => by
      obtain ⟨⟨y, hy⟩, hmore⟩ := List.forall_mem_cons.1 hfront
      rw [List.cons_append, List.mapM_cons, hy, mapM_eq_error hbad back hmore]
      rfl

end CommandLine

/-- **Streamed and kept output agree**, script by script: of two sessions that differ in their
output only, one gives the outcome that the other one's results tell, with the same variables,
commands and count; and what it sends to its stream during a script is what the other one collects.
A script that ends has a result of its own, by a return or not. So a command line prints what a
session collects that runs the same scripts up to the first failure, and tells of the failure in one
line, after the log of each of these scripts if that is asked for; and if a file cannot be read, it
prints nothing at all. -/
theorem streamed_and_kept_output_agree :
    (∀ (sent : String) (s b : Session Empty), Session.Apart sent s b →
      ∀ (scripts : List String) (script : String),
      let s' := s.afterEvals scripts
      let b' := b.afterRuns scripts
      ∃ sent' text,
        s'.state.stream = some sent' ∧
        (b'.run script).1 = .ok (.telling (s'.eval script).1 text) ∧
        (b'.eval script).1 = (s'.eval script).1 ∧
        (s'.eval script).2.state.stream = some (sent' ++ text) ∧
        (s'.eval script).2.globals = (b'.run script).2.globals ∧
        (s'.eval script).2.state.commands = (b'.run script).2.state.commands ∧
        (s'.eval script).2.state.commandCount = (b'.run script).2.state.commandCount ∧
        ∀ value returning,
          (s'.config.env.evaluateScript script { s'.state with pendingReturn := false }).1 =
            .ok ⟨value, returning⟩ →
          (b'.run script).1 =
            .ok { result := value, stdout := text, stderr := "", exitCode := 0 }) ∧
    ∀ (opening : String) (read : String → CommandLine.Contents) (args : List String)
      (options : CommandLine.Options), CommandLine.Invocation.read args = .evaluate options →
      (∀ texts, options.files.mapM (CommandLine.readScript read) = .ok texts →
        let scripts := texts ++ options.command.toList
        let ran := CommandLine.buffered.runToFailure scripts
        let logs := CommandLine.buffered.runLogs scripts
        let printed := String.join (ran.1.map RunResult.stdout)
        let log := CommandLine.shownLog opening options logs
        (logs.length = ran.1.length ∧ logs.flatten = ran.2.state.log.reverse) ∧
        ((ran.1.length = scripts.length ∧ (∀ r ∈ ran.1, r.exitCode = 0) ∧
          CommandLine.run opening read args = .exit 0 printed log) ∨
        ∃ front last message, ran.1 = front ++ [last] ∧ front.length < scripts.length ∧
          (∀ r ∈ front, r.exitCode = 0) ∧ last.exitCode = 1 ∧
          last.stderr = "error: " ++ message ++ "\n" ∧
          CommandLine.run opening read args =
            .exit 1 printed (log ++ CommandLine.errorLine message))) ∧
      ∀ front name back reason, options.files = front ++ name :: back →
        (∀ file ∈ front, ∃ text, CommandLine.readScript read file = .ok text) →
        CommandLine.readScript read name = .error reason →
          CommandLine.run opening read args =
            match reason with
            | .failed message => .exit 1 "" (CommandLine.errorLine message)
            | .broken cause => .broken cause "" "" := by
  constructor
  · intro sent s b h scripts script s' b'
    obtain ⟨sent', hapart⟩ := h.each scripts
    obtain ⟨text, hrun, heval, hnext⟩ := hapart.step script
    obtain ⟨output, hstate⟩ := hnext.state
    refine ⟨sent', text, hapart.stream, hrun, heval, hnext.stream, ?_, ?_, ?_, ?_⟩
    · rw [Session.globals, Session.globals, hstate]
    · rw [hstate]
    · rw [hstate]
    · intro value returning hcompletion
      have hvalue : (s'.eval script).1 = .ok value := by
        rw [Session.eval_eq hapart.atRest]
        exact s'.config.env.evaluate_of_completion hcompletion
      rw [hrun, hvalue]
      rfl
  · intro opening read args options hargs
    have hrun : CommandLine.run opening read args = CommandLine.evaluate opening read options := by
      rw [CommandLine.run, hargs]
    constructor
    · intro texts htexts scripts ran logs printed log
      have hlogs := Session.Apart.flatten_runLogs scripts CommandLine.apart_buffered
      obtain ⟨message, hran, hexit⟩ := CommandLine.evaluate_ran opening read options htexts
      refine ⟨hlogs, ?_⟩
      rw [hrun, hexit]
      cases message with
      | none => exact .inl ⟨hran.1, hran.2, rfl⟩
      | some message =>
          obtain ⟨front, last, hresults, hlength, hall, hcode, htold⟩ := hran
          exact .inr ⟨front, last, message, hresults, hlength, hall, hcode, htold, rfl⟩
    · intro front name back reason hfiles hfront hbad
      rw [hrun, CommandLine.evaluate, hfiles, CommandLine.mapM_eq_error hbad back hfront]
      cases reason <;> rfl

theorem RunResult.eq_of_telling {outcome : Except Fault String} {text value stdout : String}
    (h : telling outcome text = { result := value, stdout := stdout }) :
    outcome = .ok value ∧ text = stdout := by
  cases outcome with
  | ok result =>
      cases h
      exact ⟨rfl, rfl⟩
  | error fault => exact absurd (congrArg exitCode h) (by simp [telling])

/-- A session in which a script has failed midway goes on with what it had defined; a command line
goes on after a return, and tells of the script that fails. -/
theorem streamed_and_kept_output_agree_midway :
    let c : Config Empty := { host := nofun, globals := [("g", "x")] }
    let first := "proc p v {puts $v; return $v}; puts one; puts $nosuch"
    let s := (c.start true).afterEvals [first]
    let script := "p $g; return two; puts no"
    let read : String → CommandLine.Contents := fun name =>
      if name = "f" then .ok "puts a; return; puts b".toUTF8 else .error .missing
    Session.Apart "" (c.start true) (c.start false) ∧
    s.state.stream = some "one\n" ∧
    (s.eval script).1 = .ok "two" ∧
    (s.eval script).2.state.stream = some "one\nx\n" ∧
    CommandLine.run "start\n" read ["-v", "f", "-c", "puts $x"] =
      .exit 1 "a\n" ("start\n" ++
        "just_tcl.interpreter.interpreter: dispatch puts ['a'] at depth 1\n" ++
        "just_tcl.interpreter.interpreter: dispatch return [] at depth 1\n" ++
        "start\n" ++ "just-tcl: no such variable 'x'\n") := by
  intro c first s script read
  have hapart : Session.Apart "" (c.start true) (c.start false) := .start c
  obtain ⟨hsessions, hcommand⟩ := streamed_and_kept_output_agree
  obtain ⟨sent, text, hsent, hrun, _, hstream, _⟩ :=
    hsessions "" (c.start true) (c.start false) hapart [first] script
  have hone : s.state.stream = some "one\n" := by decide +kernel
  have hkept : (((c.start false).afterRuns [first]).run script).1.toOption =
      some { result := "two", stdout := "x\n" } := by decide +kernel
  rw [hrun] at hkept
  obtain ⟨htwo, rfl⟩ := RunResult.eq_of_telling (Option.some.inj hkept)
  have hsame : some sent = some "one\n" := hsent.symm.trans hone
  cases hsame
  refine ⟨hapart, hone, htwo, hstream, ?_⟩
  have hran : (CommandLine.buffered.runToFailure ["puts a; return; puts b", "puts $x"]).1 =
      [{ stdout := "a\n" }] ++ [{ stderr := "error: no such variable 'x'\n", exitCode := 1 }] := by
    decide +kernel
  have hlogs : CommandLine.buffered.runLogs ["puts a; return; puts b", "puts $x"] =
      [[.dispatching "puts" ["a"] 1, .dispatching "return" [] 1], []] := by decide +kernel
  let options : CommandLine.Options := ⟨["f"], some "puts $x", true⟩
  obtain ⟨htold, _⟩ := hcommand "start\n" read ["-v", "f", "-c", "puts $x"] options rfl
  obtain ⟨_, hends⟩ := htold ["puts a; return; puts b"] rfl
  dsimp only [options, Option.toList, List.cons_append, List.nil_append] at hends
  rw [hran, hlogs] at hends
  obtain ⟨_, hall, _⟩ | ⟨front, last, message, hresults, _, _, _, hmessage, hexit⟩ := hends
  · exact absurd (hall _ (List.mem_append_right _ (List.mem_singleton_self _))) (by decide)
  · obtain ⟨_, hlast⟩ := List.append_inj' hresults rfl
    cases hlast
    have hsame : "error: " ++ "no such variable 'x'" ++ "\n" = "error: " ++ message ++ "\n" :=
      hmessage
    rw [String.append_left_inj, String.append_right_inj] at hsame
    rw [hexit, ← hsame]
    rfl

end EmbeddedTcl
