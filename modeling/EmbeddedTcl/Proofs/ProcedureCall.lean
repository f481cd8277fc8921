import EmbeddedTcl.Proofs.Isolation
import EmbeddedTcl.Proofs.Spelling

/-!
# Calls of procedures

What a procedure does that was defined by a script and is called by one, in one law: its body is run
as a script, in a new scope that holds the arguments and nothing else, and of what that gives only
the value is kept. Names, parameters, body and arguments may be any texts; they are spelled in
braces, and parameters are told apart by the blanks between them.
-/

namespace EmbeddedTcl

variable {H : Type}

/-! ## Lists of parameters -/

/-- A name that blanks can set off from others. -/
def IsField (name : List Char) : Prop :=
  name ≠ [] ∧ ∀ c ∈ name, isBlank c = false

theorem fields_nil : fields [] = [] := by
  rw [fields]
  rfl

theorem fields_blank {c : Char} (h : isBlank c = true) (text : List Char) :
    fields (c :: text) = fields text := by
  have hskip : (c :: text).dropWhile isBlank = text.dropWhile isBlank :=
    List.dropWhile_cons_of_pos h
  rw [fields, fields]
  split
  · rename_i heq
    rw [← hskip, heq]
  · rename_i d rest heq
    rw [← hskip, heq]

/-- A field in front of a text that begins with a blank, if with anything. -/
theorem fields_append {name : List Char} (h : IsField name) {text : List Char}
    (htext : ∀ c ∈ text.head?, isBlank c = true) : fields (name ++ text) = name :: fields text := by
  obtain ⟨c, more, rfl⟩ := List.exists_cons_of_ne_nil h.1
  obtain ⟨hc, hmore⟩ := List.forall_mem_cons.1 h.2
  have hmore' : ∀ d ∈ more, (!isBlank d) = true := by
    intro d hd
    rw [hmore d hd]
    rfl
  have htake : (more ++ text).takeWhile (fun d => !isBlank d) = more := by
    rw [List.takeWhile_append_of_pos hmore']
    cases text with
    | nil => simp
    | cons d rest =>
        have hd : isBlank d = true := htext d rfl
        simp [hd]
  have hdrop : (more ++ text).dropWhile (fun d => !isBlank d) = text := by
    rw [List.dropWhile_append_of_pos hmore']
    cases text with
    | nil => rfl
    | cons d rest =>
        have hd : isBlank d = true := htext d rfl
        simp [hd]
  have hstart : (c :: more ++ text).dropWhile isBlank = c :: (more ++ text) := by
    simp [hc]
  rw [fields]
  split
  · rename_i heq
    rw [hstart] at heq
    cases heq
  · rename_i d rest heq
    rw [hstart] at heq
    cases heq
    rw [htake, hdrop]

theorem fields_intercalate {names : List (List Char)} (h : ∀ name ∈ names, IsField name) :
    fields ([' '].intercalate names) = names := by
  induction names with
  | nil => exact fields_nil
  | cons name more ih =>
      obtain ⟨hname, hmore⟩ := List.forall_mem_cons.1 h
      cases more with
      | nil =>
          have hnil : ∀ c ∈ ([] : List Char).head?, isBlank c = true := by simp
          have hfields := fields_append hname hnil
          rw [List.append_nil, fields_nil] at hfields
          simpa [List.intercalate] using hfields
      | cons next rest =>
          have hjoin : [' '].intercalate (name :: next :: rest) =
              name ++ ' ' :: [' '].intercalate (next :: rest) := by
            simp [List.intercalate]
          rw [hjoin, fields_append hname, fields_blank (by decide), ih hmore]
          rintro c ⟨⟩
          decide

/-- What parameters are read as that were written down with a space between any two. -/
theorem fields_params {params : List String}
    (h : ∀ x ∈ params, x ≠ "" ∧ ∀ c ∈ x.toList, isBlank c = false) :
    (fields (String.intercalate " " params).toList).map String.ofList = params := by
  have hfields : ∀ name ∈ params.map String.toList, IsField name := by
    intro name hname
    obtain ⟨x, hx, rfl⟩ := List.mem_map.1 hname
    exact ⟨fun hnil => (h x hx).1 (String.toList_eq_nil_iff.1 hnil), (h x hx).2⟩
  have hjoin : (String.intercalate " " params).toList =
      [' '].intercalate (params.map String.toList) := String.toList_intercalate
  rw [hjoin, fields_intercalate hfields, List.map_map]
  simp [Function.comp_def]

/-! ## Parameters and arguments -/

/-- The parameter `x` gets the argument `text`: the one that stands where `x` stands last among the
parameters that have an argument. -/
def Gets (params args : List String) (x text : String) : Prop :=
  ∃ i, params[i]? = some x ∧ args[i]? = some text ∧
    ∀ j, i < j → j < args.length → params[j]? ≠ some x

theorem Gets.unique {params args : List String} {x text text' : String}
    (h : Gets params args x text) (h' : Gets params args x text') : text = text' := by
  obtain ⟨i, hi, htext, hlast⟩ := h
  obtain ⟨k, hk, htext', hlast'⟩ := h'
  obtain ⟨hi', _⟩ := List.getElem?_eq_some_iff.1 htext
  obtain ⟨hk', _⟩ := List.getElem?_eq_some_iff.1 htext'
  rcases Nat.lt_trichotomy i k with hlt | rfl | hgt
  · exact absurd hk (hlast k hlt hk')
  · exact Option.some.inj (htext.symm.trans htext')
  · exact absurd hi (hlast' i hgt hi')

theorem Gets.cons {params args : List String} {x text : String} (h : Gets params args x text)
    (param arg : String) : Gets (param :: params) (arg :: args) x text := by
  obtain ⟨i, hi, htext, hlast⟩ := h
  refine ⟨i + 1, hi, htext, ?_⟩
  intro j hj hlive
  obtain ⟨k, rfl⟩ : ∃ k, j = k + 1 := ⟨j - 1, by omega⟩
  exact hlast k (by omega) (Nat.lt_of_succ_lt_succ hlive)

/-- The scope of a call before its body is run. -/
def callScope (params args : List String) : Scope :=
  (params.zip args).foldl (fun scope pair => scope.assign pair.1 pair.2) Table.empty

/-- Giving parameters their arguments sets those that get one, and leaves the others alone. -/
theorem find?_foldl_assign (params : List String) (x : String) : ∀ (args : List String)
    (scope : Scope),
    let after : Scope :=
      (params.zip args).foldl (fun scope pair => scope.assign pair.1 pair.2) scope
    (∃ text, Gets params args x text ∧ after.find? x = some (.value text)) ∨
      (∀ j < args.length, params[j]? ≠ some x) ∧ after.find? x = scope.find? x := by
  induction params with
  | nil => exact fun args scope => .inr ⟨by simp, rfl⟩
  | cons param params ih =>
      intro args scope
      cases args with
      | nil => exact .inr ⟨by simp, rfl⟩
      | cons arg args =>
          rcases ih args (scope.assign param arg) with ⟨text, hgets, hfind⟩ | ⟨hnone, hfind⟩
          · exact .inl ⟨text, hgets.cons param arg, hfind⟩
          · rw [Scope.assign, Table.find?_insert] at hfind
            split at hfind
            · rename_i hx
              refine .inl ⟨arg, ⟨0, by rw [hx]; rfl, rfl, ?_⟩, hfind⟩
              intro j hj hlive
              obtain ⟨k, rfl⟩ : ∃ k, j = k + 1 := ⟨j - 1, by omega⟩
              exact hnone k (Nat.lt_of_succ_lt_succ hlive)
            · rename_i hx
              refine .inr ⟨?_, hfind⟩
              intro j hlive
              cases j with
              | zero => exact fun heq => hx (Option.some.inj heq).symm
              | succ k => exact hnone k (Nat.lt_of_succ_lt_succ hlive)

theorem callScope_find?_iff (params args : List String) (x : String) (slot : Slot) :
    (callScope params args).find? x = some slot ↔
      ∃ text, Gets params args x text ∧ slot = .value text := by
  rcases find?_foldl_assign params x args Table.empty with ⟨text, hgets, hfind⟩ | ⟨hnone, hfind⟩
  · rw [callScope, hfind]
    constructor
    · rintro ⟨⟩
      exact ⟨text, hgets, rfl⟩
    · rintro ⟨text', hgets', rfl⟩
      rw [hgets.unique hgets']
  · rw [callScope, hfind, Table.find?_empty]
    constructor
    · rintro ⟨⟩
    · rintro ⟨text, ⟨i, hi, htext, _⟩, _⟩
      exact absurd hi (hnone i (List.getElem?_eq_some_iff.1 htext).1)

theorem ScopeStack.bind_push (s : ScopeStack) (params args : List String) :
    s.push.bind params args = { s with locals := callScope params args :: s.locals } := by
  have hmodify : ∀ (front : List Scope) (f : Scope → Scope),
      (front ++ [Table.empty]).modify front.length f = front ++ [f Table.empty] := by
    intro front f
    induction front with
    | nil => rfl
    | cons scope more ih => exact congrArg (scope :: ·) ih
  obtain ⟨globals, locals⟩ := s
  have hlast := hmodify locals.reverse
  rw [List.length_reverse] at hlast
  simp [push, bind, top, modify, hlast, callScope]

/-! ## Commands spelled in braces -/

def Spelled.inBraces (word : String) : Spelled :=
  ⟨word, .braced, nofun⟩

/-- A command with all its words in braces. -/
def SpelledCommand.inBraces (name : String) (args : List String) : SpelledCommand :=
  ⟨.inBraces name, args.map .inBraces⟩

theorem SpelledCommand.words_inBraces (name : String) (args : List String) :
    (inBraces name args).words = name :: args := by
  simp [words, inBraces, Spelled.inBraces, Function.comp_def]

/-- A script of one spelled command is that command. -/
theorem SpelledCommand.evaluateScript_text (env : Env H) (c : SpelledCommand) {st : State H}
    (h : st.pendingReturn = false) :
    env.evaluateScript (String.ofList c.text) st = env.dispatch c.words st := by
  have htree : Script.ofString (String.ofList c.text) = .command c.pieces .stop := by
    have hparse := parseScript_spelled c.text.length [(.newline, c)]
    rw [spelledScript, List.flatMap_nil, List.append_nil] at hparse
    rw [Script.ofString, String.toList_ofList, hparse]
    rfl
  have hwords : c.words.isEmpty = false := rfl
  rw [Env.evaluateScript_run, htree, Script.run, evalWords_pieces, Outcome.andThen_ok, hwords,
    if_neg (by simp), State.clear_pending h, h]
  rcases env.dispatch c.words st with ⟨fault | completion, st'⟩
  · rfl
  · have hreturning : completion.returningIf false = completion := by
      simp [Completion.returningIf]
    rw [Outcome.andThen_ok, hreturning]
    split
    · rfl
    · rfl

theorem SpelledCommand.evaluate_text (env : Env H) (c : SpelledCommand) {st : State H}
    (h : st.pendingReturn = false) :
    env.evaluate (String.ofList c.text) st =
      Outcome.map Completion.value (env.dispatch c.words st) := by
  rw [env.evaluate_eq, State.clear_pending h, c.evaluateScript_text env h]

/-! ## Dispatches that no limit holds back -/

/-- A command that may run is counted and logged, and runs with room for the calls below it. -/
theorem Env.dispatch_of_find (env : Env H) {st : State H} {name : String} {handler : Handler H}
    (hfind : st.commands.find? name = some handler)
    (hcount : (st.commandCount : Int) + 1 ≤ env.limits.maxCommands)
    (hdepth : st.stack.depth < env.limits.maxDepth) (args : List String) :
    env.dispatch (name :: args) st =
      callHandler env (dispatchWith env env.afresh (env.limits.room (st.stack.depth + 1)))
        env.afresh handler args
        (st.counted.note (.dispatching name args st.stack.depth)) := by
  obtain ⟨room, hroom⟩ : ∃ room, env.limits.room st.stack.depth = room + 1 :=
    ⟨env.limits.room st.stack.depth - 1, by simp only [Limits.room]; omega⟩
  have hlimit : ¬ (st.counted.commandCount > env.limits.maxCommands) := by
    simp only [State.counted]
    omega
  rw [env.dispatch_eq, hroom, Limits.room_succ hroom, dispatchWith, enter_cons, hfind]
  dsimp only
  rw [if_neg hlimit]
  rfl

/-- The state in which a procedure has been defined. -/
def State.defining (st : State H) (p : Procedure) (params : String) : State H :=
  { st with
    commands := st.commands.insert p.name (.procedure p)
    commandCount := st.commandCount + 1
    returnFlag := false
    log := [.registering p.name, .defining p.name params,
      .dispatching "proc" [p.name, params, p.body] st.stack.depth] ++ st.log }

theorem Env.dispatch_proc (env : Env H) {st : State H}
    (hproc : st.commands.find? "proc" = some (.builtin .proc))
    (hcount : (st.commandCount : Int) + 1 ≤ env.limits.maxCommands)
    (hdepth : st.stack.depth < env.limits.maxDepth) (p : Procedure) (params : String)
    (hparams : (fields params.toList).map String.ofList = p.params) :
    env.dispatch ["proc", p.name, params, p.body] st = (.ok ⟨"", false⟩, st.defining p params) := by
  rw [env.dispatch_of_find hproc hcount hdepth, callHandler_eq, Handler.run_builtin]
  simp only [Builtin.run, hparams]
  rfl

/-- The state in which the body of a procedure starts. -/
def State.calling (st : State H) (name : String) (args : List String) (scope : Scope) : State H :=
  { st with
    stack := { st.stack with locals := scope :: st.stack.locals }
    commandCount := st.commandCount + 1
    returnFlag := false
    log := .dispatching name args st.stack.depth :: st.log }

theorem State.leave_of_flag {st : State H} (h : st.returnFlag = false) :
    st.leave = { st with stack := st.stack.drop } := by
  obtain ⟨⟨_, _, _, _, _, _⟩, _, _, _⟩ := st
  cases h
  rfl

/-- A call of a procedure runs its body and keeps the value. -/
theorem Env.dispatch_procedure (env : Env H) {st : State H} {name : String} {p : Procedure}
    (hfind : st.commands.find? name = some (.procedure p))
    (hcount : (st.commandCount : Int) + 1 ≤ env.limits.maxCommands)
    (hdepth : st.stack.depth < env.limits.maxDepth) (args : List String) :
    let o := env.evaluateScript p.body (st.calling name args (callScope p.params args))
    env.dispatch (name :: args) st =
      (o.1.map fun completion => ⟨completion.value, false⟩,
        { o.2 with stack := o.2.stack.drop }) := by
  intro o
  have hcall := env.dispatch_of_find hfind hcount hdepth args
  rw [callHandler_eq, Handler.run_procedure] at hcall
  let inside := (st.counted.note (.dispatching name args st.stack.depth)).inside
  have hbound : { inside with stack := inside.stack.bind p.params args } =
      st.calling name args (callScope p.params args) :=
    congrArg (fun stack => { inside with stack }) (st.stack.bind_push p.params args)
  have hbody : EmbeddedTcl.evaluateScript (dispatchWith env env.afresh
        (env.limits.room (st.stack.depth + 1))) p.body
      { inside with stack := inside.stack.bind p.params args } = o := by
    rw [hbound]
    show _ = EmbeddedTcl.evaluateScript (env.entry _) _ _
    rw [env.entry_eq]
    rfl
  have hflag : o.2.returnFlag = false :=
    evaluateScript_keeps returnFlag_unmarked (env.entry_keeps_flag _) p.body rfl
  change env.dispatch (name :: args) st = _ at hcall
  rw [hbody] at hcall
  rw [hcall]
  generalize o = outcome at hflag ⊢
  obtain ⟨fault | completion, st'⟩ := outcome
  · exact Prod.ext rfl (State.leave_of_flag hflag)
  -- the flag that tells a return is down, so what the body gave is no return
  · have hvalue : (Reply.text completion.value).toCompletion st'.returnFlag =
        ⟨completion.value, false⟩ :=
      congrArg (Completion.mk completion.value) hflag
    exact Prod.ext (congrArg Except.ok hvalue) (State.leave_of_flag hflag)

/-! ## The law -/

/-- **A call runs the body in a scope that holds the arguments.** Define a procedure by a script and
call it by another one, both spelled in braces, where neither command is held back by a limit. The
definition gives nothing and adds the command. The call counts as one command and does what running
the body as a script does in a new scope, in which a parameter holds the argument where it stands
last, and there is nothing else; the scope is taken away again, and only the value of the body is
kept. -/
theorem call_runs_body_on_arguments (env : Env H) {st : State H}
    (hproc : st.commands.find? "proc" = some (.builtin .proc)) (name : String)
    {params : List String} (hparams : ∀ x ∈ params, x ≠ "" ∧ ∀ c ∈ x.toList, isBlank c = false)
    (body : String) (args : List String)
    (hcount : (st.commandCount : Int) + 2 ≤ env.limits.maxCommands)
    (hdepth : st.stack.depth < env.limits.maxDepth) :
    let joined := String.intercalate " " params
    let definition := String.ofList (SpelledCommand.inBraces "proc" [name, joined, body]).text
    let call := String.ofList (SpelledCommand.inBraces name args).text
    let p : Procedure := ⟨name, params, body⟩
    let defined := State.defining { st with pendingReturn := false } p joined
    env.evaluate definition st = (.ok "", defined) ∧
    ∃ scope : Scope,
      (∀ x slot, scope.find? x = some slot ↔
        ∃ text, Gets params args x text ∧ slot = .value text) ∧
      let o := env.evaluateScript body (defined.calling name args scope)
      let after := { o.2 with stack := o.2.stack.drop }
      env.evaluateScript call defined =
        (o.1.map fun completion => ⟨completion.value, false⟩, after) ∧
      env.evaluate call defined = (o.1.map Completion.value, after) := by
  intro joined definition call p defined
  let st' : State H := { st with pendingReturn := false }
  have hready : st'.pendingReturn = false := rfl
  have hproc' : st'.commands.find? "proc" = some (.builtin .proc) := hproc
  have hone : (st'.commandCount : Int) + 1 ≤ env.limits.maxCommands := by
    show (st.commandCount : Int) + 1 ≤ _
    omega
  have hdefine : env.dispatch ["proc", name, joined, body] st' = (.ok ⟨"", false⟩, defined) :=
    env.dispatch_proc hproc' hone hdepth p joined (fields_params hparams)
  have hfind : defined.commands.find? name = some (.procedure p) := by
    show (st.commands.insert name (.procedure p)).find? name = _
    rw [Table.find?_insert, if_pos rfl]
  have hcount' : (defined.commandCount : Int) + 1 ≤ env.limits.maxCommands := by
    show ((st.commandCount + 1 : Nat) : Int) + 1 ≤ _
    omega
  have hcall := env.dispatch_procedure hfind hcount' hdepth args
  refine ⟨?_, callScope params args, callScope_find?_iff params args, ?_, ?_⟩
  · rw [env.evaluate_eq]
    have hscript := SpelledCommand.evaluateScript_text env
      (.inBraces "proc" [name, joined, body]) hready
    rw [SpelledCommand.words_inBraces, hdefine] at hscript
    rw [hscript]
    rfl
  · rw [SpelledCommand.evaluateScript_text env _ rfl, SpelledCommand.words_inBraces]
    exact hcall
  · rw [SpelledCommand.evaluate_text env _ rfl, SpelledCommand.words_inBraces, hcall]
    show Outcome.map Completion.value (_, _) = _
    generalize (env.evaluateScript body (defined.calling name args (callScope params args))).1 =
      result
    cases result <;> rfl

/-- The procedure takes the place of a built-in. It gets the last argument for a parameter that is
there twice, none for the last parameter, and its body returns early, with a brace in the value. -/
theorem call_runs_body_on_arguments_shadowing :
    let params := ["x", "y", "x", "z"]
    let args := ["1", "a b", "3"]
    let body := "return \"$x $y \\\x7b\"; nosuch"
    let p : Procedure := ⟨"set", params, body⟩
    let defined := State.initial.defining p "x y x z"
    let call := String.ofList (SpelledCommand.inBraces "set" args).text
    State.initial.commands.find? "proc" = some (.builtin .proc) ∧
    (∀ x ∈ params, x ≠ "" ∧ ∀ c ∈ x.toList, isBlank c = false) ∧
    (State.initial.commandCount : Int) + 2 ≤ Config.bare.env.limits.maxCommands ∧
    State.initial.stack.depth < Config.bare.env.limits.maxDepth ∧
    (Config.bare.env.evaluate call defined).1.toOption = some "3 a b \x7b" ∧
    ∃ scope : Scope, scope.find? "x" = some (.value "3") ∧
      let o := Config.bare.env.evaluateScript body (defined.calling "set" args scope)
      Config.bare.env.evaluate call defined =
        (o.1.map Completion.value, { o.2 with stack := o.2.stack.drop }) := by
  intro params args body p defined call
  have hproc : State.initial.commands.find? "proc" = some (.builtin .proc) := rfl
  have hall : (params.all fun x => x != "" && x.toList.all fun c => !isBlank c) = true := by decide
  have hparams : ∀ x ∈ params, x ≠ "" ∧ ∀ c ∈ x.toList, isBlank c = false := by
    intro x hx
    have hfield := List.all_eq_true.1 hall x hx
    simpa using hfield
  have hcount : (State.initial.commandCount : Int) + 2 ≤ Config.bare.env.limits.maxCommands := by
    decide
  have hdepth : State.initial.stack.depth < Config.bare.env.limits.maxDepth := by decide
  obtain ⟨_, scope, hscope, _, hcall⟩ :=
    call_runs_body_on_arguments Config.bare.env hproc "set" hparams body args hcount hdepth
  have hx : Gets params args "x" "3" := by
    refine ⟨2, rfl, rfl, ?_⟩
    intro j hj hlive
    have : args.length = 3 := rfl
    omega
  refine ⟨hproc, hparams, hcount, hdepth, by decide +kernel, scope, ?_, hcall⟩
  exact (hscope "x" _).2 ⟨"3", hx, rfl⟩

end EmbeddedTcl
