import EmbeddedTcl.Interp.State

/-!
# Host programs

What a host command does, as a tree: it asks the interpreter for something, goes on according to
the answer, and in the end replies or fails. It reaches the interpreter by requests only, so
whatever holds of every request holds of every host command.
-/

namespace EmbeddedTcl

/-- What running a script in a session gives. -/
structure RunResult where
  result : String := ""
  stdout : String := ""
  stderr : String := ""
  exitCode : Nat := 0
  deriving DecidableEq

/-- Where a command finds itself: the level of its own scope, the number of live scopes, and the
commands counted so far. -/
structure Site where
  level : Nat
  depth : Nat
  commandCount : Nat

inductive Request (H : Type) where
  /-- Evaluate a script in the command's own scope, up to and including a return. -/
  | evaluate (script : String)
  /-- The same, but a return is passed on and a pending one is not cleared. -/
  | evaluateScript (script : String)
  | dispatch (words : List String)
  /-- Variables of the caller's scope. -/
  | get (name : String)
  | set (name text : String)
  | has (name : String)
  | link (name : String) (frame : Int) (target : Option String)
  | unset (name : String)
  | site
  /-- Ask for the command's result to be a returning one. -/
  | raiseReturn
  | takePending
  | takeOutput
  | write (text : String)
  | find (name : String)
  | register (name : String) (handler : Handler H)
  /-- Run a script in the session that this interpreter belongs to. -/
  | sessionRun (script : String)
  | sessionEval (script : String)
  /-- Give the session a fresh interpreter. The command at work goes on in the old one. -/
  | sessionReset

def Request.Answer {H : Type} : Request H → Type
  | evaluate _ => Except Fault String
  | evaluateScript _ => Except Fault Completion
  | dispatch _ => Except Fault Completion
  | get _ => Except Fault String
  | set _ _ => Except Fault Unit
  | has _ => Except Fault Bool
  | link _ _ _ => Unit
  | unset _ => Except Fault Unit
  | site => Site
  | raiseReturn => Unit
  | takePending => Bool
  | takeOutput => String
  | write _ => Unit
  | find _ => Option (Handler H)
  | register _ _ => Unit
  | sessionRun _ => Except Fault RunResult
  | sessionEval _ => Except Fault String
  | sessionReset => Unit

/-- What a command replies. A completion is the result as it stands; anything else becomes a text
that takes its kind from the return flag. -/
inductive Reply where
  | nothing
  | number (value : Nat)
  | text (value : String)
  | completion (value : Completion)

inductive Program (H : Type) where
  | reply (reply : Reply)
  | fail (fault : Fault)
  | ask (request : Request H) (next : request.Answer → Program H)

namespace Program

variable {H : Type}

def text (value : String) : Program H :=
  .reply (.text value)

/-- Goes on with the answer, or fails as the request did. -/
def orFail {α : Type} (next : α → Program H) : Except Fault α → Program H
  | .ok value => next value
  | .error fault => .fail fault

end Program

end EmbeddedTcl
