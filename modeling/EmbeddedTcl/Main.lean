import EmbeddedTcl.CommandLine.Run

/-!
# The program

Reads the files that the command line names and prints what comes of it.
-/

namespace EmbeddedTcl.CommandLine

def readContents (name : String) : IO Contents := do
  try
    return .ok (← IO.FS.readBinFile (Path.ofString name).toString)
  catch
    | .inappropriateType _ 21 _ => return .error .isDirectory
    | .inappropriateType _ _ _ => return .error .notDirectory
    | .invalidArgument _ _ _ => return .error .nameTooLong
    | .permissionDenied _ _ _ => return .error .denied
    | _ => return .error .missing

/-- What the event loop of each script logs first, where it polls by epoll. -/
def loopLine : String :=
  "asyncio: Using selector: EpollSelector\n"

/-- Runs the command line on the files that are there, and gives its exit code. -/
def runIn (args : List String) : IO UInt32 := do
  let names := match Invocation.read args with
    | .evaluate options => options.files
    | _ => []
  let contents ← names.mapM fun name => return (name, ← readContents name)
  match run loopLine (fun name => (contents.lookup name).getD (.error .missing)) args with
  | .exit code stdout stderr =>
    IO.print stdout
    IO.eprint stderr
    return code.toUInt32
  | .broken cause stdout stderr =>
    IO.print stdout
    IO.eprint (stderr ++ errorLine cause.message)
    return 1

end EmbeddedTcl.CommandLine

def main (args : List String) : IO UInt32 :=
  EmbeddedTcl.CommandLine.runIn args
