import EmbeddedTcl.Interp.Program
import EmbeddedTcl.Text.Decimal
import EmbeddedTcl.Text.Quoted

/-!
# Stock host commands

A set of commands that a host may register as they are. They show an interpreter from inside:
where a command runs, what its caller's variables are linked to, what is pending, and what comes of
evaluating, running and resetting while another script is at work.
-/

namespace EmbeddedTcl

inductive Stock where
  /-- The arguments, joined by blanks. -/
  | collect
  /-- The arguments, each in angle brackets. -/
  | words
  /-- The number of arguments. -/
  | count
  | nothing
  /-- Evaluates its first argument in its own scope. -/
  | eval
  /-- The same, passing a return on. -/
  | evalScript
  /-- Returns its first argument. -/
  | leave
  /-- Asks to return, but replies with a plain completion. -/
  | plain
  /-- Asks to return the joined arguments. -/
  | flagReturn
  /-- Asks to return, then evaluates. -/
  | flagEval
  /-- Fails as a script does. -/
  | fail
  /-- Fails as a host does. -/
  | boom
  /-- Its level, that of its caller, the depth and the number of commands so far. -/
  | site
  | link
  | unset
  | isSet
  /-- Registers an existing command under another name. -/
  | copy
  | dispatch
  | pending
  | take
  | rerun
  | reeval
  | reset
  deriving DecidableEq

namespace Stock

/-- What each kind is called. -/
def names : List (String × Stock) :=
  [("collect", collect), ("words", words), ("count", count), ("none", nothing), ("eval", eval),
    ("evalscript", evalScript), ("leave", leave), ("okc", plain), ("flagret", flagReturn),
    ("flageval", flagEval), ("fail", fail), ("boom", boom), ("where", site), ("link", link),
    ("unset", unset), ("exists", isSet), ("alias", copy), ("dispatch", dispatch),
    ("pending", pending), ("take", take), ("rerun", rerun), ("reeval", reeval), ("reset", reset)]

def ofName? (name : String) : Option Stock :=
  names.lookup name

open Program

/-- The arguments with one blank between them. -/
def joined (args : List String) : String :=
  " ".intercalate args

def digit (b : Bool) : String :=
  if b then "1" else "0"

def integerMessage (text : String) : IntegerError → String
  | .malformed =>
    "invalid literal for int() with base 10: " ++ Quoted.cutTo 200 (Quoted.ofString text)
  | .tooLong digits =>
    "Exceeds the limit (" ++ toString maxDigits ++
      " digits) for integer string conversion: value has " ++ toString digits ++
      " digits; use sys.set_int_max_str_digits() to increase the limit"

/-- Links a name of the caller to a name in the frame whose number the second argument spells. -/
def linkProgram : List String → Program Stock
  | name :: number :: rest =>
    match readInteger number with
    | .ok frame => .ask (.link name frame rest.head?) fun _ => text ""
    | .error e => .fail (.host (integerMessage number e))
  | _ => .fail .outOfRange

def unsetProgram : List String → Program Stock
  | [] => text ""
  | name :: rest => .ask (.unset name) (orFail fun _ => unsetProgram rest)

def copyProgram : List String → Program Stock
  | name :: source :: _ =>
    .ask (.find source) fun
      | some handler => .ask (.register name handler) fun _ => text ""
      | none => .fail (.script (.general "no such command"))
  | _ => .fail .outOfRange

/-- What each command does with its arguments. -/
def program (s : Stock) (args : List String) : Program Stock :=
  let first := args.headD ""
  match s with
  | collect => text (joined args)
  | words => text (String.join (args.map fun word => "<" ++ word ++ ">"))
  | count => .reply (.number args.length)
  | nothing => .reply .nothing
  | eval => .ask (.evaluate first) (orFail text)
  | evalScript => .ask (.evaluateScript first) (orFail fun c => .reply (.completion c))
  | leave => .reply (.completion ⟨first, true⟩)
  | plain => .ask .raiseReturn fun _ => .reply (.completion ⟨first, false⟩)
  | flagReturn => .ask .raiseReturn fun _ => text (joined args)
  | flagEval => .ask .raiseReturn fun _ => .ask (.evaluate first) (orFail text)
  | fail => .fail (.script (.general (joined args)))
  | boom => .fail (.host (joined args))
  | site =>
    .ask .site fun s => text (" ".intercalate
      [toString s.level, toString (s.level - 1), toString s.depth, toString s.commandCount])
  | link => linkProgram args
  | unset => unsetProgram args
  | isSet => .ask (.has first) (orFail fun known => text (digit known))
  | copy => copyProgram args
  | dispatch => .ask (.dispatch args) (orFail fun c => .reply (.completion c))
  | pending => .ask .takePending fun was => text (digit was)
  | take => .ask .takeOutput text
  | rerun =>
    .ask (.sessionRun first) (orFail fun r => text ("|".intercalate
      [toString r.exitCode, r.result, r.stdout, r.stderr]))
  | reeval => .ask (.sessionEval first) (orFail text)
  | reset => .ask .sessionReset fun _ => text "reset"

end Stock

end EmbeddedTcl
