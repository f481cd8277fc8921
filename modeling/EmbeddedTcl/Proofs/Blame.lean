import EmbeddedTcl.Proofs.Flaws
import EmbeddedTcl.Proofs.Return

/-!
# Errors about script text

An evaluation reads more than one text: the script, and the body of each procedure that is called,
which may have been defined only a moment before. An error about a text passes through all calls
and brackets on its way out. It says where the cause is and what it is, and this is true of a text
that was there to be read: the script itself, or a body that was registered at that time.
-/

namespace EmbeddedTcl

variable {H α β : Type}

/-! ## What an error points at -/

/-- What an error about script text says of it is so, at the position that it tells. Without a
position, or if the error is of no special kind, it says too little. -/
def Error.PointsInto (text : List Char) : Error → Prop
  | .unclosedQuote (some position) => ∃ p : Nat, position = p ∧ text[p]? = some '"'
  | .unclosedBrace (some position) => ∃ p : Nat, position = p ∧ text[p]? = some '{'
  | .unsupportedEscape sequence kind (some position) =>
    ∃ (p : Nat) (c : Char), position = p ∧ text[p]? = some '\\' ∧ text[p + 1]? = some c ∧
      sequence = String.ofList [c] ∧ kind ∈ ["octal", "hex", "unicode"] ∧
      (kind = "octal" ↔ '0' ≤ c ∧ c ≤ '7') ∧ (kind = "hex" ↔ c = 'x') ∧ (kind = "unicode" ↔ c = 'u')
  | _ => False

theorem EscapeForm.name_iff {c : Char} {form : EscapeForm} (h : ofChar? c = some form) :
    form.name ∈ ["octal", "hex", "unicode"] ∧ (form.name = "octal" ↔ '0' ≤ c ∧ c ≤ '7') ∧
      (form.name = "hex" ↔ c = 'x') ∧ (form.name = "unicode" ↔ c = 'u') := by
  rw [ofChar?] at h
  split at h
  · rename_i hoctal
    cases h
    have hne : ∀ d : Char, ¬ d ≤ '7' → c ≠ d := by
      rintro d hd rfl
      exact hd hoctal.2
    simp [name, hoctal, hne 'x' (by decide), hne 'u' (by decide)]
  · rename_i hoctal
    split at h
    · rename_i hx
      cases h
      subst hx
      decide
    split at h
    · rename_i hu
      cases h
      subst hu
      decide
    · cases h

theorem Flaw.error_pointsInto {flaw : Flaw} {text : List Char} {p : Nat}
    (h : flaw.Opens (text.drop p)) : (flaw.error (some p)).PointsInto text := by
  cases flaw with
  | openQuote => exact ⟨p, rfl, List.head?_drop.symm.trans h⟩
  | openBrace => exact ⟨p, rfl, List.head?_drop.symm.trans h⟩
  | numericEscape c form =>
      obtain ⟨hform, more, hmore⟩ := h
      have hget : ∀ i, text[p + i]? = ('\\' :: c :: more)[i]? := by
        intro i
        rw [← List.getElem?_drop, ← hmore]
        rfl
      exact ⟨p, c, rfl, hget 0, hget 1, rfl, EscapeForm.name_iff hform⟩

/-! ## Faults with a cause -/

/-- The body of a procedure that is registered at one of the moments. -/
def Registered (trace : List (Moment H)) (text : String) : Prop :=
  ∃ m ∈ trace, ∃ name p, m.state.commands.find? name = some (.procedure p) ∧ p.body = text

/-- A fault that is an error about script text points into a body that is registered at one of the
moments, or else it is one that `own` allows. -/
def Traced (own : Error → Prop) (trace : List (Moment H)) (fault? : Option Fault) : Prop :=
  ∀ error, fault? = some (.script error) → error.isSyntactic = true →
    own error ∨ ∃ text, Registered trace text ∧ error.PointsInto text.toList

/-- A fault that is no error about script text. -/
def NotSyntactic (fault? : Option Fault) : Prop :=
  ∀ error, fault? = some (.script error) → error.isSyntactic = false

section

variable {own : Error → Prop} {trace trace' : List (Moment H)} {fault? : Option Fault}

theorem NotSyntactic.traced (h : NotSyntactic fault?) : Traced own trace fault? := by
  intro error herror hsyntactic
  rw [h error herror] at hsyntactic
  cases hsyntactic

theorem NotSyntactic.script {error : Error} (h : error.isSyntactic = false) :
    NotSyntactic (some (.script error)) := by
  rintro error' ⟨⟩
  exact h

theorem NotSyntactic.none : NotSyntactic none := by
  rintro error ⟨⟩

theorem Traced.none : Traced own trace none :=
  NotSyntactic.none.traced

theorem Traced.mono (h : Traced own trace fault?) (hsub : trace ⊆ trace') :
    Traced own trace' fault? := by
  intro error herror hsyntactic
  rcases h error herror hsyntactic with hown | ⟨text, ⟨m, hm, hbody⟩, hpoints⟩
  · exact .inl hown
  · exact .inr ⟨text, ⟨m, hsub hm, hbody⟩, hpoints⟩

theorem Traced.imp {own' : Error → Prop} (h : Traced own trace fault?)
    (himp : ∀ error, own error → own' error) : Traced own' trace fault? :=
  fun error herror hsyntactic => (h error herror hsyntactic).imp_left (himp error)

theorem Traced.andThen {o : Outcome H α} {f : α → State H → Outcome H β}
    (h : Traced own trace o.fault?) (h' : ∀ value s, Traced own trace (f value s).fault?) :
    Traced own trace (Outcome.andThen o f).fault? := by
  obtain ⟨fault | value, st⟩ := o
  · exact h
  · exact h' value st

/-- One piece of work after the other. -/
theorem Traced.thenTrace {o : Outcome H α} {next : α → State H → List (Moment H)}
    {f : α → State H → Outcome H β} (h : Traced own trace o.fault?)
    (h' : ∀ value s, Traced own (next value s) (f value s).fault?) :
    Traced own (trace ++ o.thenTrace next) (Outcome.andThen o f).fault? := by
  obtain ⟨fault | value, st⟩ := o
  · exact h.mono (List.subset_append_left _ _)
  · exact (h' value st).mono (List.subset_append_right _ _)

theorem Traced.cons (h : Traced own trace fault?) (m : Moment H) : Traced own (m :: trace) fault? :=
  h.mono (List.subset_cons_self m trace)

end

/-! ## Faults of variables and built-ins -/

theorem ScopeStack.fault_of_resolve {s : ScopeStack} {level : Nat} {name : String} {fault : Fault}
    (h : s.resolve level name = .error fault) : fault = .outOfRange := by
  rw [resolve] at h
  split at h
  · split at h
    · cases h
    · cases h
      rfl
  · cases h

theorem ScopeStack.fault_of_get {s : ScopeStack} {level : Nat} {name : String} {fault : Fault}
    (h : s.get level name = .error fault) :
    fault = .outOfRange ∨ fault = .script (.unknownVariable name) := by
  rw [get] at h
  split at h
  · rename_i hresolve
    cases h
    exact .inl (fault_of_resolve hresolve)
  · split at h
    · cases h
    · cases h
      exact .inr rfl

theorem ScopeStack.get_notSyntactic (s : ScopeStack) (level : Nat) (name : String) (f : String → α)
    (st : State H) : NotSyntactic (Outcome.fault? ((s.get level name).map f, st)) := by
  cases hget : s.get level name with
  | ok text => exact .none
  | error fault =>
      rintro error ⟨⟩
      rcases fault_of_get hget with h | h
      · cases h
      · cases h
        rfl

theorem Builtin.run_notSyntactic (b : Builtin) (args : List String) (st : State H) :
    NotSyntactic (Outcome.fault? (b.run args st)) := by
  unfold Builtin.run
  split
  case h_1 name =>
    have h := st.stack.get_notSyntactic st.stack.caller name id st
    rwa [Except.map_id] at h
  case h_2 name text =>
    cases hset : st.stack.set st.stack.caller name text with
    | ok stack => exact .none
    | error fault =>
      rintro error ⟨⟩
      rw [ScopeStack.set] at hset
      split at hset
      · rename_i hresolve
        cases hset
        cases ScopeStack.fault_of_resolve hresolve
      · cases hset
  case h_9 => exact .script rfl
  all_goals exact .none

/-! ## Words and scripts -/

/-- Every dispatch has a registered body to blame for an error about script text. -/
def Tracer.Accounts (t : Tracer H) (d : Dispatcher H) : Prop :=
  ∀ own words st, Traced own (t words st) (Outcome.fault? (d words st))

section

variable {own : Error → Prop} {d : Dispatcher H} {t : Tracer H}

theorem traceEmbedded_traced (ht : t.Accounts d) (words : List String) (st : State H) :
    Traced own (traceEmbedded d t words st) (runEmbedded d words st).fault? := by
  rw [traceEmbedded, runEmbedded]
  split
  · exact .none
  · exact (Traced.thenTrace (ht own words _) fun _ _ => .none).cons _

mutual

theorem Piece.trace_traced (ht : t.Accounts d) : ∀ (piece : Piece) (st : State H),
    Traced own (piece.trace d t st) (piece.eval d st).fault?
  | .char _, st => by
      rw [Piece.eval]
      exact .none
  | .escaped _, st => by
      rw [Piece.eval]
      exact .none
  | .read name, st => by
      rw [Piece.eval]
      exact (st.stack.get_notSyntactic _ name _ st).traced
  | .command words, st => by
      rw [Piece.trace, Piece.eval]
      exact .thenTrace (traceWords_traced ht words st) (traceEmbedded_traced ht)

theorem traceWord_traced (ht : t.Accounts d) : ∀ (word : List Piece) (st : State H),
    Traced own (traceWord d t word st) (evalWord d word st).fault?
  | [], st => by
      rw [evalWord]
      exact .none
  | piece :: more, st => by
      rw [traceWord, evalWord]
      refine .thenTrace (piece.trace_traced ht st) fun first s => ?_
      rw [Outcome.fault?_map]
      exact traceWord_traced ht more s

theorem traceWords_traced (ht : t.Accounts d) : ∀ (words : List (List Piece)) (st : State H),
    Traced own (traceWords d t words st) (evalWords d words st).fault?
  | [], st => by
      rw [evalWords]
      exact .none
  | word :: more, st => by
      rw [traceWords, evalWords]
      refine .thenTrace (traceWord_traced ht word st) fun first s => ?_
      rw [Outcome.fault?_map]
      exact traceWords_traced ht more s

end

/-- A script with at most one flaw, which has an error of its own. -/
theorem Script.of_traced (ht : t.Accounts d) {text : List Char} {size : Nat}
    {flawed : Option (Broken text)} (hown : ∀ b ∈ flawed, own (b.malformed size).error)
    (commands : List (List Word)) : ∀ (last : Completion) (st : State H),
      Traced own ((Script.of size commands flawed).trace d t st)
        ((Script.of size commands flawed).run d last st).fault? := by
  induction commands with
  | nil =>
      intro last st
      cases flawed with
      | none => exact .none
      | some b =>
          refine .andThen (traceWord_traced ht b.before st) fun _ s => ?_
          rintro error ⟨⟩ _
          exact .inl (hown b rfl)
  | cons words more ih =>
      intro last st
      refine .thenTrace (traceWords_traced ht words st) fun texts s => .cons ?_ _
      split
      · exact ih last _
      · refine .thenTrace (ht own texts _) fun completion s' => ?_
        split
        · exact .none
        · exact ih completion s'

/-- A text that is run as a script: an error about it points into it. -/
theorem Script.ofString_traced (ht : t.Accounts d) (text : String) (last : Completion)
    (st : State H) :
    Traced (·.PointsInto text.toList) ((Script.ofString text).trace d t st)
      ((Script.ofString text).run d last st).fault? := by
  obtain ⟨commands, flawed, hparse⟩ := parseScript_placed text.toList
  have hown : ∀ b ∈ flawed, (b.malformed text.toList.length).error.PointsInto text.toList := by
    intro b _
    obtain ⟨p, hopens, herror, _⟩ := b.error_eq
    rw [herror]
    exact Flaw.error_pointsInto hopens
  rw [Script.ofString, hparse]
  exact Script.of_traced ht hown commands last st

end

/-! ## Dispatch -/

section

variable (env : Env Empty) {d : Dispatcher Empty} {t : Tracer Empty} (renewed : Evaluator Empty)

theorem Handler.trace_traced (ht : t.Accounts d) (args : List String) (st : State Empty)
    (handler : Handler Empty) :
    Traced (fun error => ∃ p, handler = .procedure p ∧ error.PointsInto p.body.toList)
      (handler.trace d t args st) (Outcome.fault? (handler.run env d renewed args st)) := by
  cases handler with
  | builtin b =>
      rw [Handler.run_builtin, Outcome.fault?_map]
      exact (b.run_notSyntactic args st).traced
  | procedure p =>
      rw [Handler.run_procedure, Outcome.fault?_map, evaluateScript_eq_run]
      refine .mono (.imp (Script.ofString_traced ht p.body {} _) ?_) (List.subset_append_right _ _)
      exact fun _ hpoints => ⟨p, rfl, hpoints⟩
  | host h => exact h.elim

theorem fault?_callHandler (d : Dispatcher Empty) (handler : Handler Empty) (args : List String)
    (st : State Empty) :
    Outcome.fault? (callHandler env d renewed handler args st) =
      Outcome.fault? (handler.run env d renewed args st.inside) := by
  rw [callHandler_eq]
  rcases handler.run env d renewed args st.inside with ⟨_ | _, _⟩ <;> rfl

theorem traceEnter_accounts (inner : Option (Dispatcher Empty × Tracer Empty))
    (h : ∀ p ∈ inner, p.2.Accounts p.1) :
    (traceEnter env renewed inner).Accounts (enter env renewed (inner.map Prod.fst)) := by
  intro own words st
  cases words with
  | nil =>
      refine NotSyntactic.traced ?_
      rintro error ⟨⟩
  | cons name args =>
      rw [traceEnter, enter]
      cases hfind : st.commands.find? name with
      | none => exact NotSyntactic.traced (.script rfl)
      | some handler =>
          dsimp only
          split
          · exact NotSyntactic.traced (.script rfl)
          · cases inner with
            | none => exact NotSyntactic.traced (.script rfl)
            | some p =>
                rw [Option.map_some, fault?_callHandler]
                intro error herror hsyntactic
                obtain ⟨d, t⟩ := p
                have htraced := handler.trace_traced env renewed (h (d, t) rfl) args
                  (State.note _ _).inside error herror hsyntactic
                rcases htraced with ⟨p, rfl, hpoints⟩ | ⟨text, ⟨m, hm, hbody⟩, hpoints⟩
                -- the body of the procedure that is called here, which has just been looked up
                · refine .inr ⟨p.body, ⟨_, List.mem_cons_self, name, p, ?_, rfl⟩, hpoints⟩
                  exact hfind
                · refine .inr ⟨text, ⟨m, ?_, hbody⟩, hpoints⟩
                  exact List.mem_cons_of_mem _ (List.mem_append_left _ (List.mem_cons_of_mem _ hm))

theorem traceWith_accounts (room : Nat) :
    (traceWith env renewed room).Accounts (dispatchWith env renewed room) := by
  induction room with
  | zero => exact traceEnter_accounts env renewed none (by simp)
  | succ room ih =>
      refine traceEnter_accounts env renewed
        (some (dispatchWith env renewed room, traceWith env renewed room)) ?_
      rintro p ⟨⟩
      exact ih

end

/-! ## The law -/

/-- **An error about script text points at its cause.** If an evaluation ends with such an error,
then there is a text, which is the script or the body of a procedure that is registered at one of
the moments of the evaluation, and at the position of the error stands what it is about: the quote
or the brace that is not closed, or the backslash of an escape, followed by the character of the
escape, which is one that its kind is named for. There are no other errors about script text. -/
theorem syntactic_error_points_at_cause (env : Env Empty) (script : String) (st : State Empty)
    {error : Error} (herror : (env.evaluate script st).1 = .error (.script error))
    (hsyntactic : error.isSyntactic = true) :
    Path st (env.traceEvaluate script st) (env.evaluate script st).2 ∧
    ∃ text : String, (text = script ∨ Registered (env.traceEvaluate script st) text) ∧
      error.PointsInto text.toList := by
  refine ⟨env.traceEvaluate_path script st, ?_⟩
  let ready := { st with pendingReturn := false }
  have ht : (traceWith env env.afresh (env.limits.room ready.stack.depth)).Accounts
      (env.entry ready) := by
    rw [env.entry_eq]
    exact traceWith_accounts env env.afresh _
  have htraced := (Script.ofString_traced ht script {} ready).cons ⟨.mark, ready⟩
  have hfault : ((Script.ofString script).run (env.entry ready) {} ready).fault? =
      some (.script error) := by
    have h := Outcome.fault?_eq_some.2 herror
    rw [env.evaluate_eq, Outcome.fault?_map] at h
    rw [← h, Env.evaluateScript, evaluateScript_eq_run]
  rcases htraced error hfault hsyntactic with hown | ⟨text, hregistered, hpoints⟩
  · exact ⟨script, .inl rfl, hown⟩
  · exact ⟨text, .inr hregistered, hpoints⟩

/-- The quote that is not closed is at position 6 of a body that the script itself defines. In the
script there is a blank at this position. -/
theorem syntactic_error_in_defined_body :
    let env := Config.bare.env
    let script := "proc f \x7b\x7d \x7bset a \"b\x7d; set c [f]"
    let error := Error.unclosedQuote (some 6)
    (env.evaluate script .initial).1 = .error (.script error) ∧ error.isSyntactic = true ∧
      ∃ text, Registered (env.traceEvaluate script .initial) text ∧
        error.PointsInto text.toList := by
  intro env script error
  have hfault : Outcome.fault? (env.evaluate script .initial) = some (.script error) := by
    decide +kernel
  have herror := Outcome.fault?_eq_some.1 hfault
  obtain ⟨_, text, hsource, hpoints⟩ :=
    syntactic_error_points_at_cause env script .initial herror rfl
  rcases hsource with rfl | hregistered
  · obtain ⟨p, hp, hchar⟩ := hpoints
    obtain rfl : p = 6 := (Int.ofNat.inj hp).symm
    exact absurd hchar (by decide +kernel)
  · exact ⟨herror, rfl, text, hregistered, hpoints⟩

end EmbeddedTcl
