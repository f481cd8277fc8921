import EmbeddedTcl.Host.Stock
import EmbeddedTcl.Proofs.HostTrace
import EmbeddedTcl.Proofs.Return

/-!
# Runs inside runs

A host command may run a script in the session whose script it is part of. Both runs collect their
output in one buffer, which every run empties when it starts and again when it ends. A transcript
tells what happens to output while a script is evaluated: what is written, and which runs there
are, each with a transcript of its own. From it one can read off what is in the buffer at any time,
and so what each run, at whatever depth, has to show: what it wrote itself after the last run
inside it. What it wrote before is dropped when that run starts.
-/

namespace EmbeddedTcl

variable {H α : Type}

/-! ## Transcripts -/

inductive Note where
  | wrote (text : String)
  /-- A script was run, with all that is noted `inside`, and came to an outcome. -/
  | ran (inside : List Note) (outcome : Except Fault RunResult)

/-- What becomes of output, in order. -/
abbrev Transcript := List Note

mutual

/-- All that is written. -/
def Note.said : Note → String
  | .wrote text => text
  | .ran inside _ => Transcript.said inside

def Transcript.said : Transcript → String
  | [] => ""
  | note :: more => note.said ++ Transcript.said more

end

mutual

/-- What is written while no run is in progress inside. A run that comes to no result has nothing to
show its text in, so that it falls to the run around. -/
def Note.own : Note → String
  | .wrote text => text
  | .ran _ (.ok _) => ""
  | .ran inside (.error _) => Transcript.own inside

def Transcript.own : Transcript → String
  | [] => ""
  | note :: more => note.own ++ Transcript.own more

end

mutual

/-- What is in the buffer in the end. A run drops what it finds there, and takes away what it has
collected if it comes to a result. -/
def Note.kept (buffer : String) : Note → String
  | .wrote text => buffer ++ text
  | .ran _ (.ok _) => ""
  | .ran inside (.error _) => Transcript.kept "" inside

def Transcript.kept (buffer : String) : Transcript → String
  | [] => buffer
  | note :: more => Transcript.kept (note.kept buffer) more

end

mutual

/-- What was in the buffer when runs started that dropped it. -/
def Note.dropped (buffer : String) : Note → String
  | .wrote _ => ""
  | .ran _ (.ok _) => buffer
  | .ran inside (.error _) => buffer ++ Transcript.dropped "" inside

def Transcript.dropped (buffer : String) : Transcript → String
  | [] => ""
  | note :: more => note.dropped buffer ++ Transcript.dropped (note.kept buffer) more

end

/-- A transcript tells of a run, at whatever depth. -/
inductive Transcript.Tells (inside : Transcript) (outcome : Except Fault RunResult) :
    Transcript → Prop where
  | here {notes : Transcript} (h : .ran inside outcome ∈ notes) : Tells inside outcome notes
  | deeper {notes around : Transcript} {o : Except Fault RunResult} (h : .ran around o ∈ notes)
      (h' : Tells inside outcome around) : Tells inside outcome notes

namespace Transcript

theorem said_append (front back : Transcript) : said (front ++ back) = said front ++ said back := by
  induction front with
  | nil => simp [said]
  | cons note front ih => simp [said, ih, String.append_assoc]

theorem own_append (front back : Transcript) : own (front ++ back) = own front ++ own back := by
  induction front with
  | nil => simp [own]
  | cons note front ih => simp [own, ih, String.append_assoc]

theorem kept_append (front back : Transcript) :
    ∀ buffer, kept buffer (front ++ back) = kept (kept buffer front) back := by
  induction front with
  | nil => exact fun _ => rfl
  | cons note front ih => exact fun _ => ih _

mutual

theorem append_own_note : ∀ (note : Note) (buffer : String),
    buffer ++ note.own = note.dropped buffer ++ note.kept buffer
  | .wrote text, buffer => (String.empty_append ..).symm
  | .ran _ (.ok _), buffer => rfl
  | .ran inside (.error _), buffer => by
      -- a run starts with nothing in the buffer, whatever was there
      have hinside := append_own inside ""
      rw [String.empty_append] at hinside
      rw [Note.own, Note.dropped, Note.kept, hinside, String.append_assoc]

/-- **No text is lost but what a starting run drops**, and none is kept twice. -/
theorem append_own : ∀ (notes : Transcript) (buffer : String),
    buffer ++ own notes = dropped buffer notes ++ kept buffer notes
  | [], buffer => by rw [own, dropped, kept, String.append_empty, String.empty_append]
  | note :: more, buffer => by
      rw [own, dropped, kept, ← String.append_assoc, append_own_note note, String.append_assoc,
        append_own more, String.append_assoc]

end

/-- Where nothing is run, all that is written stays. -/
theorem kept_of_wrote {notes : Transcript} (h : ∀ note ∈ notes, ∃ text, note = .wrote text) :
    ∀ buffer, kept buffer notes = buffer ++ own notes := by
  induction notes with
  | nil => exact fun _ => (String.append_empty ..).symm
  | cons note notes ih =>
      obtain ⟨⟨text, rfl⟩, hmore⟩ := List.forall_mem_cons.1 h
      intro buffer
      rw [kept, ih hmore, own, Note.own, Note.kept, String.append_assoc]

namespace Tells

variable {inside : Transcript} {o : Except Fault RunResult}

theorem of_append {front back : Transcript} (h : Tells inside o (front ++ back)) :
    Tells inside o front ∨ Tells inside o back := by
  rcases h with h | ⟨h, h'⟩
  · exact (List.mem_append.1 h).imp .here .here
  · exact (List.mem_append.1 h).imp (.deeper · h') (.deeper · h')

theorem of_ran {around : Transcript} {o' : Except Fault RunResult}
    (h : Tells inside o [.ran around o']) : (inside = around ∧ o = o') ∨ Tells inside o around := by
  rcases h with h | ⟨h, h'⟩
  · cases List.mem_singleton.1 h
    exact .inl ⟨rfl, rfl⟩
  · cases List.mem_singleton.1 h
    exact .inr h'

end Tells

/-- Every run that is told of shows what its own transcript says. -/
def Honest (notes : Transcript) : Prop :=
  ∀ inside r, Tells inside (.ok r) notes → r.stdout = kept "" inside

namespace Honest

theorem of_still {notes : Transcript} (h : ∀ note ∈ notes, ∃ text, note = .wrote text) :
    Honest notes := by
  rintro inside r (hmem | ⟨hmem, -⟩)
  · obtain ⟨text, htext⟩ := h _ hmem
    cases htext
  · obtain ⟨text, htext⟩ := h _ hmem
    cases htext

theorem append {front back : Transcript} (h : Honest front) (h' : Honest back) :
    Honest (front ++ back) :=
  fun inside r htells => htells.of_append.elim (h inside r) (h' inside r)

theorem ran {inside : Transcript} {o : Except Fault RunResult} (h : Honest inside)
    (hresult : ∀ r, o = .ok r → r.stdout = kept "" inside) : Honest [.ran inside o] := by
  intro inside' r htells
  rcases htells.of_ran with ⟨rfl, ho⟩ | hdeeper
  · exact hresult r ho.symm
  · exact h inside' r hdeeper

end Honest

end Transcript

/-! ## The transcript of an evaluation -/

/-- The transcript of a dispatch. -/
abbrev Recorder (H : Type) := List String → State H → Transcript

/-- What a transcript goes on with after a success. -/
def Outcome.thenNotes (o : Outcome H α) (next : α → State H → Transcript) : Transcript :=
  match o with
  | (.ok value, st) => next value st
  | (.error _, _) => []

section

variable (d : Dispatcher H) (t : Recorder H)

def embeddedNotes (words : List String) (st : State H) : Transcript :=
  if words.isEmpty then [] else t words { st with pendingReturn := false }

mutual

def Piece.notes : Piece → State H → Transcript
  | .char _, _ => []
  | .escaped _, _ => []
  | .read _, _ => []
  | .command words, st =>
    wordsNotes words st ++ (evalWords d words st).thenNotes (embeddedNotes t)

def wordNotes : List Piece → State H → Transcript
  | [], _ => []
  | piece :: more, st =>
    piece.notes st ++ (piece.eval d st).thenNotes fun _ st' => wordNotes more st'

def wordsNotes : List (List Piece) → State H → Transcript
  | [], _ => []
  | word :: more, st =>
    wordNotes word st ++ (evalWord d word st).thenNotes fun _ st' => wordsNotes more st'

end

def Script.notes : Script → State H → Transcript
  | .stop, _ => []
  | .broken m, st => wordNotes d t m.before st
  | .command words more, st =>
    wordsNotes d t words st ++ (evalWords d words st).thenNotes fun texts st' =>
      if texts.isEmpty then more.notes { st' with pendingReturn := false }
      else
        t texts { st' with pendingReturn := false } ++
          Outcome.thenNotes (d texts { st' with pendingReturn := false }) fun completion st'' =>
            if (completion.returningIf st'.pendingReturn).returning then [] else more.notes st''

def evaluateNotes (script : String) (st : State H) : Transcript :=
  (Script.ofString script).notes d t { st with pendingReturn := false }

/-- An interpreter that was replaced has no part in what another one evaluates. -/
def currentNotes (script : String) (st : State H) : Transcript :=
  match st.replacement with
  | none => evaluateNotes d t script st
  | some _ => []

variable (env : Env H) (renewed : Evaluator H)

def Request.notes (st : State H) : Request H → Transcript
  | evaluate script => evaluateNotes d t script st
  | evaluateScript script => (Script.ofString script).notes d t st
  | dispatch words => t words st
  | write text => [.wrote text]
  | sessionEval script => currentNotes d t script st
  | sessionRun script =>
    [.ran (currentNotes d t script st.takeCurrentOutput.2)
      ((sessionRun script).perform env d renewed st).1]
  | _ => []

def Program.notes : Program H → State H → Transcript
  | reply _, _ => []
  | fail _, _ => []
  | ask request next, st =>
    let o := request.perform env d renewed st
    request.notes d t env renewed st ++ (next o.1).notes o.2

def Builtin.notes : Builtin → List String → Transcript
  | puts, [text] => [.wrote (text ++ "\n")]
  | puts, ["-nonewline", text] => [.wrote text]
  | _, _ => []

def Handler.notes (args : List String) (st : State H) : Handler H → Transcript
  | builtin b => b.notes args
  | procedure p =>
    (Script.ofString p.body).notes d t { st with stack := st.stack.bind p.params args }
  | host h => (env.host h args).notes d t env renewed st

end

section

variable (env : Env H) (renewed : Evaluator H)

def enterNotes (inner : Option (Dispatcher H × Recorder H)) : Recorder H
  | [], _ => []
  | name :: args, st =>
    match st.commands.find? name with
    | none => []
    | some handler =>
      if st.counted.commandCount > env.limits.maxCommands then []
      else
        match inner with
        | none => []
        | some (d, t) =>
          handler.notes d t env renewed args
            (st.counted.note (.dispatching name args st.stack.depth)).inside

def notesWith : (room : Nat) → Recorder H
  | 0 => enterNotes env renewed none
  | room + 1 => enterNotes env renewed (some (dispatchWith env renewed room, notesWith room))

end

/-! ## Transcripts are true -/

/-- What a host's command may ask for here: anything but the output that waits, and a reset. -/
def Request.LeavesOutput : Request H → Prop
  | takeOutput => False
  | sessionReset => False
  | _ => True

def Program.LeavesOutput : Program H → Prop
  | reply _ => True
  | fail _ => True
  | ask request next => request.LeavesOutput ∧ ∀ answer, (next answer).LeavesOutput

/-- An interpreter that has not been replaced goes from one state to another, and `notes` tells of
it: output goes to the stream if there is one, and otherwise into the buffer. -/
structure State.Noted (st : State H) (notes : Transcript) (st' : State H) : Prop where
  current : st'.replacement = none
  stream : st'.stream = st.stream.map (· ++ notes.said)
  output : st.stream = none → st'.output = notes.kept st.output
  honest : st.stream = none → notes.Honest

namespace State.Noted

/-- Nothing becomes of output. -/
theorem still {st st' : State H} (current : st.replacement = none)
    (replacement : st'.replacement = st.replacement) (stream : st'.stream = st.stream)
    (output : st'.output = st.output) : st.Noted [] st' where
  current := replacement.trans current
  stream := by
    rw [stream]
    cases st.stream <;> simp [Transcript.said]
  output _ := output
  honest _ := .of_still (by simp)

theorem withStack {st : State H} (current : st.replacement = none)
    (change : Except Fault ScopeStack) : st.Noted [] (st.withStack change).2 := by
  cases change with
  | ok stack => exact .still current rfl rfl rfl
  | error fault => exact .still current rfl rfl rfl

theorem append {s t u : State H} {front back : Transcript} (h : s.Noted front t)
    (h' : t.Noted back u) : s.Noted (front ++ back) u := by
  have hnone (hs : s.stream = none) : t.stream = none := by
    rw [h.stream, hs]
    rfl
  refine ⟨h'.current, ?_, fun hs => ?_, fun hs => (h.honest hs).append (h'.honest (hnone hs))⟩
  · rw [h'.stream, h.stream, Transcript.said_append]
    cases s.stream <;> simp [String.append_assoc]
  · rw [h'.output (hnone hs), h.output hs, Transcript.kept_append]

theorem write {st : State H} (current : st.replacement = none) (text : String) :
    st.Noted [.wrote text] (st.write text) := by
  have honest : Transcript.Honest [.wrote text] := .of_still (by simp)
  unfold State.write
  split
  · rename_i sent hstream
    exact ⟨current, by simp [hstream, Transcript.said, Note.said],
      fun h => by simp [h] at hstream, fun _ => honest⟩
  · rename_i hstream
    exact ⟨current, by simp [hstream], fun _ => rfl, fun _ => honest⟩

/-- Whatever else is changed before and after. -/
theorem framed {st st' s s' : State H} {notes : Transcript} (h : s.Noted notes s')
    (before : s.output = st.output ∧ s.stream = st.stream)
    (after : st'.output = s'.output ∧ st'.stream = s'.stream ∧ st'.replacement = s'.replacement) :
    st.Noted notes st' := by
  obtain ⟨current, stream, output, honest⟩ := h
  rw [before.1, before.2] at output
  rw [before.2] at stream honest
  exact ⟨after.2.2.trans current, after.2.1.trans stream, fun h => after.1.trans (output h), honest⟩

theorem thenNotes {β : Type} {st : State H} {front : Transcript} {o : Outcome H α}
    {next : α → State H → Transcript} {f : α → State H → Outcome H β} (h : st.Noted front o.2)
    (h' : ∀ value (s : State H), s.replacement = none → s.Noted (next value s) (f value s).2) :
    st.Noted (front ++ o.thenNotes next) (Outcome.andThen o f).2 := by
  rcases o with ⟨fault | value, s⟩
  · rw [Outcome.thenNotes, List.append_nil]
    exact h
  · exact h.append (h' value s h.current)

end State.Noted

/-- A recorder that tells of each dispatch what becomes of output. -/
def Recorder.Tells (t : Recorder H) (d : Dispatcher H) : Prop :=
  ∀ words st, st.replacement = none → State.Noted st (t words st) (d words st).2

/-! ### Reading and scripts -/

section

variable {d : Dispatcher H} {t : Recorder H}

theorem embeddedNotes_noted (ht : t.Tells d) (words : List String) {st : State H}
    (current : st.replacement = none) :
    st.Noted (embeddedNotes t words st) (runEmbedded d words st).2 := by
  rw [embeddedNotes, runEmbedded]
  split
  · exact .still current rfl rfl rfl
  · have hdispatch := ht words { st with pendingReturn := false } current
    generalize d words { st with pendingReturn := false } = o at hdispatch ⊢
    rcases o with ⟨fault | completion, s⟩
    · exact hdispatch.framed ⟨rfl, rfl⟩ ⟨rfl, rfl, rfl⟩
    · exact hdispatch.framed ⟨rfl, rfl⟩ ⟨rfl, rfl, rfl⟩

mutual

theorem Piece.notes_noted (ht : t.Tells d) :
    ∀ (piece : Piece) {st : State H}, st.replacement = none →
      st.Noted (piece.notes d t st) (piece.eval d st).2
  | .char _, st, current => by
      rw [Piece.notes, Piece.eval]
      exact .still current rfl rfl rfl
  | .escaped _, st, current => by
      rw [Piece.notes, Piece.eval]
      exact .still current rfl rfl rfl
  | .read _, st, current => by
      rw [Piece.notes, Piece.eval]
      exact .still current rfl rfl rfl
  | .command words, st, current => by
      rw [Piece.notes, Piece.eval]
      exact (wordsNotes_noted ht words current).thenNotes fun texts _ =>
        embeddedNotes_noted ht texts

theorem wordNotes_noted (ht : t.Tells d) :
    ∀ (word : List Piece) {st : State H}, st.replacement = none →
      st.Noted (wordNotes d t word st) (evalWord d word st).2
  | [], st, current => by
      rw [wordNotes, evalWord]
      exact .still current rfl rfl rfl
  | piece :: more, st, current => by
      rw [wordNotes, evalWord]
      refine (piece.notes_noted ht current).thenNotes fun first s hs => ?_
      rw [Outcome.snd_map]
      exact wordNotes_noted ht more hs

theorem wordsNotes_noted (ht : t.Tells d) :
    ∀ (words : List (List Piece)) {st : State H}, st.replacement = none →
      st.Noted (wordsNotes d t words st) (evalWords d words st).2
  | [], st, current => by
      rw [wordsNotes, evalWords]
      exact .still current rfl rfl rfl
  | word :: more, st, current => by
      rw [wordsNotes, evalWords]
      refine (wordNotes_noted ht word current).thenNotes fun first s hs => ?_
      rw [Outcome.snd_map]
      exact wordsNotes_noted ht more hs

end

section

variable (ht : t.Tells d)

include ht

theorem Script.notes_noted (script : Script) :
    ∀ (last : Completion) {st : State H}, st.replacement = none →
      st.Noted (script.notes d t st) (script.run d last st).2 := by
  induction script with
  | stop => exact fun last st current => .still current rfl rfl rfl
  | broken m =>
      intro last st current
      rw [Script.notes, Script.run, Malformed.snd_raise]
      exact wordNotes_noted ht m.before current
  | command words more ih =>
      intro last st current
      refine (wordsNotes_noted ht words current).thenNotes fun texts s hs => ?_
      let unmarked : State H := { s with pendingReturn := false }
      split
      · have hmore := ih last (show unmarked.replacement = none from hs)
        exact hmore.framed ⟨rfl, rfl⟩ ⟨rfl, rfl, rfl⟩
      · have hdispatch : s.Noted (t texts unmarked) (d texts unmarked).2 :=
          (ht texts unmarked hs).framed ⟨rfl, rfl⟩ ⟨rfl, rfl, rfl⟩
        refine hdispatch.thenNotes fun completion s' hs' => ?_
        split
        · exact .still hs' rfl rfl rfl
        · exact ih completion hs'

theorem evaluateScript_noted (script : String) {st : State H} (current : st.replacement = none) :
    st.Noted ((Script.ofString script).notes d t st) (evaluateScript d script st).2 := by
  rw [evaluateScript_eq_run]
  exact (Script.ofString script).notes_noted ht {} current

theorem evaluate_noted (script : String) {st : State H} (current : st.replacement = none) :
    st.Noted (evaluateNotes d t script st) (evaluate d script st).2 := by
  rw [evaluate_eq_run, Outcome.snd_map, ← evaluateScript_eq_run]
  let unmarked : State H := { st with pendingReturn := false }
  have hscript := evaluateScript_noted ht script (show unmarked.replacement = none from current)
  exact hscript.framed ⟨rfl, rfl⟩ ⟨rfl, rfl, rfl⟩

end

end

/-! ### Runs -/

/-- A run drops what waits, and shows what is kept after that. -/
theorem runCurrent_noted {eval : Evaluator H} {script : String} {st : State H} {inside : Transcript}
    (current : st.replacement = none)
    (h : ({ st with output := "" } : State H).Noted inside
      (eval script { st with output := "" }).2) :
    st.Noted [.ran inside (runCurrent eval script st).1] (runCurrent eval script st).2 := by
  unfold runCurrent
  rw [State.takeCurrentOutput_of_current current]
  generalize eval script { st with output := "" } = o at h ⊢
  obtain ⟨outcome, s⟩ := o
  obtain ⟨hcurrent, hstream, houtput, hhonest⟩ := h
  dsimp only at hcurrent hstream houtput hhonest
  have hsaid (r : Except Fault RunResult) :
      s.stream = st.stream.map (· ++ Transcript.said [.ran inside r]) := by
    rw [hstream, Transcript.said, Note.said, Transcript.said, String.append_empty]
  have htake := State.takeCurrentOutput_of_current hcurrent
  -- a value or a script error is a result, which takes the buffer along; a fault leaves it full
  split
  · rename_i value s' heq
    cases heq
    rw [htake]
    refine ⟨hcurrent, hsaid _, fun _ => rfl, fun h => (hhonest h).ran ?_⟩
    rintro r ⟨⟩
    exact houtput h
  · rename_i error s' heq
    cases heq
    rw [htake]
    refine ⟨hcurrent, hsaid _, fun _ => rfl, fun h => (hhonest h).ran ?_⟩
    rintro r ⟨⟩
    exact houtput h
  · rename_i fault s' _ heq
    cases heq
    exact ⟨hcurrent, hsaid _, houtput, fun h => (hhonest h).ran nofun⟩

/-! ### Commands -/

section

theorem Builtin.notes_noted (b : Builtin) (args : List String) {st : State H}
    (current : st.replacement = none) : st.Noted (b.notes args) (b.run args st).2 := by
  unfold Builtin.run
  split
  case h_2 name text =>
    split
    · exact .still current rfl rfl rfl
    · exact .still current rfl rfl rfl
  case h_3 =>
    obtain ⟨stack, log, heq, -⟩ := linkGlobals_eq args st
    rw [heq]
    exact .still current rfl rfl rfl
  case h_4 text => exact .write current _
  case h_5 text => exact .write current text
  case h_9 hline hbare _ _ _ =>
    -- arguments that `puts` refuses are not told of either
    unfold notes
    split
    · exact (hline _ rfl rfl).elim
    · exact (hbare _ rfl rfl).elim
    · exact .still current rfl rfl rfl
  all_goals exact .still current rfl rfl rfl

variable {d : Dispatcher H} {t : Recorder H} (ht : t.Tells d) (env : Env H) (renewed : Evaluator H)

include ht

theorem currentNotes_noted (script : String) {st : State H} (current : st.replacement = none) :
    st.Noted (currentNotes d t script st)
      (evaluateCurrent (EmbeddedTcl.evaluate d) renewed script st).2 := by
  unfold currentNotes evaluateCurrent
  rw [current]
  exact evaluate_noted ht script current

theorem Request.notes_noted {request : Request H} (h : request.LeavesOutput) {st : State H}
    (current : st.replacement = none) :
    st.Noted (request.notes d t env renewed st) (request.perform env d renewed st).2 := by
  cases request with
  | evaluate script => exact evaluate_noted ht script current
  | evaluateScript script => exact evaluateScript_noted ht script current
  | dispatch words => exact ht words st current
  | sessionEval script => exact currentNotes_noted ht renewed script current
  | sessionRun script =>
      refine runCurrent_noted current ?_
      rw [State.takeCurrentOutput_of_current current]
      exact currentNotes_noted ht renewed script current
  | write text => exact .write current text
  | takeOutput => exact h.elim
  | sessionReset => exact h.elim
  | set name text => exact .withStack current _
  | unset name => exact .withStack current _
  | _ => exact .still current rfl rfl rfl

theorem Program.notes_noted {program : Program H} :
    program.LeavesOutput → ∀ {st : State H}, st.replacement = none →
      st.Noted (program.notes d t env renewed st) (program.run env d renewed st).2 := by
  induction program with
  | reply r => exact fun _ _ current => .still current rfl rfl rfl
  | fail fault => exact fun _ _ current => .still current rfl rfl rfl
  | ask request next ih =>
      intro h st current
      have hrequest := request.notes_noted ht env renewed h.1 current
      exact hrequest.append (ih _ (h.2 _) hrequest.current)

theorem Handler.notes_noted (hhost : ∀ h args, (env.host h args).LeavesOutput) (args : List String)
    (handler : Handler H) {st : State H} (current : st.replacement = none) :
    st.Noted (handler.notes d t env renewed args st) (handler.run env d renewed args st).2 := by
  cases handler with
  | builtin b =>
      rw [Handler.run_builtin, Outcome.snd_map]
      exact b.notes_noted args current
  | procedure p =>
      rw [Handler.run_procedure, Outcome.snd_map]
      let bound : State H := { st with stack := st.stack.bind p.params args }
      have hbody := evaluateScript_noted ht p.body (show bound.replacement = none from current)
      exact hbody.framed ⟨rfl, rfl⟩ ⟨rfl, rfl, rfl⟩
  | host h => exact Program.notes_noted ht env renewed (hhost h args) current

end

section

variable (env : Env H) (renewed : Evaluator H) (hhost : ∀ h args, (env.host h args).LeavesOutput)

include hhost

theorem enterNotes_tells (inner : Option (Dispatcher H × Recorder H))
    (hinner : ∀ p ∈ inner, p.2.Tells p.1) :
    (enterNotes env renewed inner).Tells (enter env renewed (inner.map Prod.fst)) := by
  intro words st current
  cases words with
  | nil => exact .still current rfl rfl rfl
  | cons name args =>
      rw [enterNotes, enter_cons]
      cases st.commands.find? name with
      | none => exact .still current rfl rfl rfl
      | some handler =>
          dsimp only
          split
          · exact .still current rfl rfl rfl
          · cases inner with
            | none => exact .still current rfl rfl rfl
            | some p =>
                let inside := (st.counted.note (.dispatching name args st.stack.depth)).inside
                have hrun := handler.notes_noted (hinner p rfl) env renewed hhost args
                  (show inside.replacement = none from current)
                rw [Option.map_some, Env.proceed, callHandler_eq]
                exact hrun.framed ⟨rfl, rfl⟩ ⟨rfl, rfl, rfl⟩

theorem notesWith_tells (room : Nat) :
    (notesWith env renewed room).Tells (dispatchWith env renewed room) := by
  induction room with
  | zero => exact enterNotes_tells env renewed hhost none (by simp)
  | succ room ih =>
      refine enterNotes_tells env renewed hhost
        (some (dispatchWith env renewed room, notesWith env renewed room)) ?_
      rintro p ⟨⟩
      exact ih

end

/-! ## Sessions -/

namespace Session

/-- The transcript of a script that is run in a session. -/
def transcript (s : Session H) (script : String) : Transcript :=
  let st := s.state.takeCurrentOutput.2
  evaluateNotes (s.config.env.entry st)
    (notesWith s.config.env s.config.env.afresh (s.config.env.limits.room st.stack.depth)) script st

/-- A run with all that becomes of output in it. -/
def record (s : Session H) (script : String) : Note :=
  .ran (s.transcript script) (s.run script).1

variable {s : Session H}

theorem run_noted (current : s.state.replacement = none)
    (hhost : ∀ h args, (s.config.host h args).LeavesOutput) (script : String) :
    s.state.Noted [s.record script] (s.run script).2.state := by
  have hscript : ({ s.state with output := "" } : State H).Noted (s.transcript script)
      (s.config.env.evaluate script { s.state with output := "" }).2 := by
    have htells := notesWith_tells s.config.env s.config.env.afresh hhost
      (s.config.env.limits.room s.state.stack.depth)
    rw [← s.config.env.entry_eq] at htells
    rw [transcript, State.takeCurrentOutput_of_current current]
    exact evaluate_noted htells script current
  have hrun := runCurrent_noted current hscript
  rw [record, run]
  generalize runCurrent s.config.env.evaluate script s.state = o at hrun ⊢
  obtain ⟨outcome, st⟩ := o
  dsimp only at hrun ⊢
  rw [State.settle_of_current hrun.current]
  exact hrun

end Session

/-- **What a run shows** is what it wrote itself, less what was waiting when runs inside it started:
that is dropped. None of it is shown by another run, or twice. So a run shows all that it wrote if
and only if nothing was waiting at any of these times; and otherwise it shows what it wrote after
the last run inside it. -/
theorem run_shows_what_inner_runs_leave {s : Session H} (stream : s.state.stream = none)
    (current : s.state.replacement = none)
    (hhost : ∀ h args, (s.config.host h args).LeavesOutput) (script : String) {inside : Transcript}
    {r : RunResult} (h : Transcript.Tells inside (.ok r) [s.record script]) :
    inside.own = inside.dropped "" ++ r.stdout ∧
    (r.stdout = inside.own ↔ inside.dropped "" = "") ∧
    ((∀ note ∈ inside, ∃ text, note = .wrote text) → r.stdout = inside.own) ∧
    ∀ (front back nested : Transcript) r', inside = front ++ .ran nested (.ok r') :: back →
      (∀ note ∈ back, ∃ text, note = .wrote text) →
        inside.dropped "" = front.own ∧ r.stdout = back.own := by
  have hshown : r.stdout = inside.kept "" :=
    (Session.run_noted current hhost script).honest stream inside r h
  have hown : inside.own = inside.dropped "" ++ r.stdout := by
    rw [hshown, ← inside.append_own "", String.empty_append]
  refine ⟨hown, ?_, ?_, ?_⟩
  · rw [hown, eq_comm, String.append_eq_right_iff]
  · intro hwrote
    rw [hshown, Transcript.kept_of_wrote hwrote, String.empty_append]
  · rintro front back nested r' rfl hback
    have hlast : r.stdout = back.own := by
      rw [hshown, Transcript.kept_append, Transcript.kept, Note.kept,
        Transcript.kept_of_wrote hback, String.empty_append]
    rw [Transcript.own_append, Transcript.own, Note.own, String.empty_append, hlast,
      String.append_left_inj] at hown
    exact ⟨hown.symm, hlast⟩

/-- A host with one command, which runs a script in the session that it is called from. -/
def Config.rerunning : Config Stock where
  host _ := Stock.program .rerun
  commands := Table.ofList [("rerun", .rerun)]

theorem Config.rerunning_leavesOutput (h : Stock) (args : List String) :
    (rerunning.host h args).LeavesOutput := by
  refine ⟨trivial, fun answer => ?_⟩
  cases answer <;> trivial

/-- One line before the inner run and one after it: the first one is dropped. -/
theorem inner_run_leaves_last_line :
    let s := Config.rerunning.start false
    let script := "puts a; rerun {puts b}; puts c"
    s.state.stream = none ∧ s.state.replacement = none ∧
    (∀ h args, (s.config.host h args).LeavesOutput) ∧
    ∃ r, Transcript.Tells (s.transcript script) (.ok r) [s.record script] ∧ r.stdout = "c\n" ∧
      (s.transcript script).own = (s.transcript script).dropped "" ++ r.stdout := by
  intro s script
  have hrun : (s.run script).1 = .ok { stdout := "c\n" } := by
    have hresult : (s.run script).1.toOption = some { stdout := "c\n" } := by decide +kernel
    generalize (s.run script).1 = outcome at hresult ⊢
    cases outcome with
    | ok r => exact congrArg _ (Option.some.inj hresult)
    | error fault => cases hresult
  have htells : Transcript.Tells (s.transcript script) (.ok { stdout := "c\n" })
      [s.record script] := by
    rw [Session.record, hrun]
    exact .here (List.mem_singleton_self _)
  exact ⟨rfl, rfl, Config.rerunning_leavesOutput, _, htells, rfl,
    (run_shows_what_inner_runs_leave rfl rfl Config.rerunning_leavesOutput script htells).1⟩

/-- A run that starts inside another one makes it lose what it wrote before. -/
theorem inner_run_loses_text :
    let s := Config.rerunning.start false
    let script := "puts a; rerun {puts b}; puts c"
    (s.run script).1.toOption.map RunResult.stdout = some "c\n" ∧
      (s.transcript script).own = "a\nc\n" := by
  decide +kernel

end EmbeddedTcl
