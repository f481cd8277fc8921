/-!
# Errors

An `Error` is what a script does wrong, and reads as a message. A `Fault` is whatever ends an
evaluation early: a script error, or a misuse of the interpreter that script text alone cannot
commit.
-/

namespace EmbeddedTcl

inductive Error where
  | general (message : String)
  | malformed (message : String) (position : Option Int)
  | unclosedQuote (position : Option Int)
  | unclosedBrace (position : Option Int)
  | unsupportedEscape (sequence kind : String) (position : Option Int)
  | unknownVariable (name : String)
  | unknownCommand (name : String)
  | wrongArgs (usage : String)
  | executionLimit (message kind : String)
  deriving DecidableEq

namespace Error

/-- A message about script text names the position when it is known. -/
def located (message : String) : Option Int → String
  | none => message
  | some position => message ++ " at position " ++ toString position

def message : Error → String
  | general message => message
  | malformed message position => located message position
  | unclosedQuote position => located "unclosed quote" position
  | unclosedBrace position => located "unclosed brace" position
  | unsupportedEscape sequence kind position =>
    located (kind ++ " escape \\" ++ sequence ++ " not supported") position
  | unknownVariable name => "no such variable '" ++ name ++ "'"
  | unknownCommand name => "unknown command `" ++ name ++ "'"
  | wrongArgs usage => "wrong # args: should be \"" ++ usage ++ "\""
  | executionLimit message _ => message

/-- Errors about the script text itself, found before anything is run. -/
def isSyntactic : Error → Bool
  | malformed _ _ | unclosedQuote _ | unclosedBrace _ | unsupportedEscape _ _ _ => true
  | _ => false

end Error

inductive Fault where
  | script (error : Error)
  /-- An index below the first or above the last element. -/
  | outOfRange
  /-- A dispatch without a command name. -/
  | noWords
  /-- The global scope cannot be removed. -/
  | globalScopePopped
  /-- A host command failed in a way of its own. -/
  | host (message : String)
  /-- Nested runs replaced the interpreter more often than the host allows. -/
  | replacedTooOften
  deriving DecidableEq

namespace Fault

def message : Fault → String
  | script error => error.message
  | outOfRange => "index out of range"
  | noWords => "empty command"
  | globalScopePopped => "cannot pop the global frame"
  | host message => message
  | replacedTooOften => "too many nested interpreters"

end Fault

end EmbeddedTcl
