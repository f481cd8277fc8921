import EmbeddedTcl.Interp.Builtin
import EmbeddedTcl.Interp.Current
import EmbeddedTcl.Interp.Script

/-!
# Dispatch

Runs a command by its name: counts it, checks both limits, and gives it a scope of its own for as
long as it runs. Calls nest as deep as the limit on live scopes allows, and the recursion is on
just that number.
-/

namespace EmbeddedTcl

variable {H : Type}

/-- What stays the same while an interpreter works: its limits, the meaning of the host's commands,
the interpreter that a reset starts from, and how many replaced interpreters may be at work at
once. -/
structure Env (H : Type) where
  limits : Limits := {}
  host : H → List String → Program H
  fresh : Interpreter H
  maxReplaced : Nat := 1000

/-- Turns a change of the scope stack that may fail into an answer and a new state. -/
def State.withStack (st : State H) : Except Fault ScopeStack → Except Fault Unit × State H
  | .ok stack => (.ok (), { st with stack })
  | .error fault => (.error fault, st)

/-- Answers a request of a running command. `d` dispatches from its scope, and `renewed` evaluates
in an interpreter that has taken the place of the one at work. -/
def Request.perform (env : Env H) (d : Dispatcher H) (renewed : Evaluator H) (st : State H) :
    (q : Request H) → q.Answer × State H
  | evaluate script => EmbeddedTcl.evaluate d script st
  | evaluateScript script => EmbeddedTcl.evaluateScript d script st
  | dispatch words => d words st
  | get name => (st.stack.get st.stack.caller name, st)
  | set name text => st.withStack (st.stack.set st.stack.caller name text)
  | has name => (st.stack.has st.stack.caller name, st)
  | link name frame target =>
    ((), { st with stack := st.stack.link st.stack.caller name frame target })
  | unset name => st.withStack (st.stack.unset st.stack.caller name)
  | site => (⟨st.stack.top, st.stack.depth, st.commandCount⟩, st)
  | raiseReturn => ((), { st with returnFlag := true })
  | takePending => st.takePending
  | takeOutput => st.takeOutput
  | write text => ((), st.write text)
  | find name => (st.commands.find? name, st)
  | register name handler => ((), st.register name handler)
  | sessionRun script =>
    runCurrent (evaluateCurrent (EmbeddedTcl.evaluate d) renewed) script st
  | sessionEval script => evaluateCurrent (EmbeddedTcl.evaluate d) renewed script st
  | sessionReset => ((), { st with replacement := some env.fresh })

def Program.run (env : Env H) (d : Dispatcher H) (renewed : Evaluator H) :
    Program H → State H → Except Fault Reply × State H
  | reply r, st => (.ok r, st)
  | fail fault, st => (.error fault, st)
  | ask request next, st =>
    match request.perform env d renewed st with
    | (answer, st') => (next answer).run env d renewed st'

/-- Runs a command in the scope made for it. A return in the body of a procedure ends there. -/
def Handler.run (env : Env H) (d : Dispatcher H) (renewed : Evaluator H) (args : List String)
    (st : State H) : Handler H → Except Fault Reply × State H
  | builtin b =>
    match b.run args st with
    | (.ok text, st') => (.ok (.text text), st')
    | (.error fault, st') => (.error fault, st')
  | procedure p =>
    match evaluateScript d p.body { st with stack := st.stack.bind p.params args } with
    | (.ok completion, st') => (.ok (.text completion.value), st')
    | (.error fault, st') => (.error fault, st')
  | host h => (env.host h args).run env d renewed st

def Reply.toCompletion (returning : Bool) : Reply → Completion
  | nothing => ⟨"", returning⟩
  | number value => ⟨toString value, returning⟩
  | text value => ⟨value, returning⟩
  | completion c => c

/-- Runs `handler` in a new scope, which is gone again afterwards however it ends. -/
def callHandler (env : Env H) (d : Dispatcher H) (renewed : Evaluator H) (handler : Handler H)
    (args : List String) (st : State H) : Except Fault Completion × State H :=
  match handler.run env d renewed args { st with stack := st.stack.push, returnFlag := false } with
  | (.ok reply, st') =>
    (.ok (reply.toCompletion st'.returnFlag),
      { st' with stack := st'.stack.drop, returnFlag := false })
  | (.error fault, st') =>
    (.error fault, { st' with stack := st'.stack.drop, returnFlag := false })

/-- Checks that a command may run, and runs it. `inner` dispatches one call deeper; there is none
when the limit on live scopes is reached. -/
def enter (env : Env H) (renewed : Evaluator H) (inner : Option (Dispatcher H)) : Dispatcher H
  | [], st => (.error .noWords, st)
  | name :: args, st =>
    match st.commands.find? name with
    | none => (.error (.script (.unknownCommand name)), st)
    | some handler =>
      let st' := { st with commandCount := st.commandCount + 1 }
      if st'.commandCount > env.limits.maxCommands then
        (.error (.script env.limits.commandsError), st')
      else
        match inner with
        | none => (.error (.script env.limits.depthError), st')
        | some d =>
          callHandler env d renewed handler args
            (st'.note (.dispatching name args st.stack.depth))

/-- Dispatches where `room` more calls may be nested. -/
def dispatchWith (env : Env H) (renewed : Evaluator H) : (room : Nat) → Dispatcher H
  | 0 => enter env renewed none
  | room + 1 => enter env renewed (some (dispatchWith env renewed room))

namespace Env

/-- Dispatches where `room` more calls may be nested and `replaced` more interpreters replaced. -/
def dispatcher (env : Env H) : (replaced room : Nat) → Dispatcher H
  | 0, room => dispatchWith env (fun _ st => (.error .replacedTooOften, st)) room
  | replaced + 1, room =>
    dispatchWith env (fun script st =>
      evaluate (env.dispatcher replaced (env.limits.room st.stack.depth)) script st) room

/-- The dispatcher to use from a given state. -/
def entry (env : Env H) (st : State H) : Dispatcher H :=
  env.dispatcher env.maxReplaced (env.limits.room st.stack.depth)

def dispatch (env : Env H) : Dispatcher H := fun words st =>
  env.entry st words st

def evaluateScript (env : Env H) (script : String) (st : State H) :
    Except Fault Completion × State H :=
  EmbeddedTcl.evaluateScript (env.entry st) script st

def evaluate (env : Env H) : Evaluator H := fun script st =>
  EmbeddedTcl.evaluate (env.entry st) script st

/-- Runs `handler` by itself in a scope made for it. It is not counted as a command and no limit
holds it back, and the return flag stays as it leaves it. -/
def call (env : Env H) (handler : Handler H) (args : List String) (st : State H) :
    Except Fault Reply × State H :=
  let inside := { st with stack := st.stack.push }
  match handler.run env (env.entry inside) env.evaluate args inside with
  | (outcome, st') => (outcome, { st' with stack := st'.stack.drop })

end Env

end EmbeddedTcl
