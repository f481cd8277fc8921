import EmbeddedTcl.CommandLine.Arguments
import EmbeddedTcl.CommandLine.Files
import EmbeddedTcl.Session

/-!
# The command line

Evaluates script files and an inline script in one session, up to the first error. All files are
read before anything is evaluated.
-/

namespace EmbeddedTcl.CommandLine

def usage : String :=
  "usage: just-tcl [-h] [-c COMMAND] [-v] [files ...]\n"

def helpText : String :=
  usage ++
  "\nEvaluate Tcl scripts\n" ++
  "\npositional arguments:\n" ++
  "  files                 Script files, evaluated in order\n" ++
  "\noptions:\n" ++
  "  -h, --help            show this help message and exit\n" ++
  "  -c COMMAND, --command COMMAND\n" ++
  "                        Evaluate this script text after the files\n" ++
  "  -v, --verbose         Log command dispatch\n"

def logLine : LogEntry → String
  | .dispatching name args depth =>
    "just_tcl.interpreter.interpreter: dispatch " ++ name ++ " " ++ Quoted.ofList args ++
      " at depth " ++ toString depth ++ "\n"
  | .defining name params =>
    "just_tcl.interpreter.builtins.procedures: defining procedure " ++ name ++ " with params " ++
      params ++ "\n"
  | .registering name => "just_tcl.interpreter.interpreter: registering command " ++ name ++ "\n"
  | .linking name level =>
    "just_tcl.interpreter.builtins.variables: linking " ++ name ++ " in frame " ++
      toString level ++ " to global\n"

/-- What the program has no exit code for. -/
inductive Breakdown where
  /-- A file is not text. -/
  | undecodable
  /-- A file's name holds a null character. -/
  | nullInName

def Breakdown.message : Breakdown → String
  | undecodable => "a script file is not UTF-8 text"
  | nullInName => "embedded null byte"

/-- What the program does for its caller. -/
inductive Outcome where
  | exit (code : Nat) (stdout stderr : String)
  | broken (cause : Breakdown) (stdout stderr : String)

def errorLine (message : String) : String :=
  "just-tcl: " ++ message ++ "\n"

/-- Why a file could not be read as text. -/
inductive Unreadable where
  | failed (message : String)
  | broken (cause : Breakdown)

def readScript (read : String → Contents) (name : String) : Except Unreadable String :=
  if name.toList.contains '\x00' then .error (.broken .nullInName)
  else
    match read name with
    | .error e => .error (.failed (e.message name))
    | .ok bytes =>
      match decodeText bytes with
      | none => .error (.broken .undecodable)
      | some text => .ok text

/-- What becomes of scripts that are evaluated one after the other. -/
structure Evaluated where
  /-- The message of the script that failed, if one did. -/
  failure : Option String
  /-- What each script that was evaluated has logged. -/
  logs : List (List LogEntry)
  session : Session Empty

/-- Evaluates scripts in order up to the first error. -/
def evalAll (s : Session Empty) : List String → Evaluated
  | [] => ⟨none, [], s⟩
  | script :: rest =>
    match s.eval script with
    | (.ok _, s') =>
      let more := evalAll s' rest
      { more with logs := s'.loggedSince s :: more.logs }
    | (.error fault, s') => ⟨some fault.message, [s'.loggedSince s], s'⟩

/-- The session that a command line works in. -/
def session : Session Empty :=
  ({ host := nofun } : Config Empty).start true

/-- The logs of scripts, if they are asked for. The log of each script begins with `opening`: what
the platform itself logs when it sets about a script. -/
def shownLog (opening : String) (options : Options) (logs : List (List LogEntry)) : String :=
  if options.verbose then
    String.join (logs.map fun entries => opening ++ String.join (entries.map logLine))
  else ""

def evaluate (opening : String) (read : String → Contents) (options : Options) : Outcome :=
  match options.files.mapM (readScript read) with
  | .error (.failed message) => .exit 1 "" (errorLine message)
  | .error (.broken cause) => .broken cause "" ""
  | .ok scripts =>
    let done := evalAll session (scripts ++ options.command.toList)
    let log := shownLog opening options done.logs
    let stdout := done.session.state.stream.getD ""
    match done.failure with
    | none => .exit 0 stdout log
    | some message => .exit 1 stdout (log ++ errorLine message)

/-- Does what the arguments say, with `read` to find files and `opening` in front of each script's
log. -/
def run (opening : String) (read : String → Contents) (args : List String) : Outcome :=
  match Invocation.read args with
  | .help => .exit 0 helpText ""
  | .misuse message => .exit 2 "" (usage ++ "just-tcl: error: " ++ message ++ "\n")
  | .evaluate options => evaluate opening read options

end EmbeddedTcl.CommandLine
