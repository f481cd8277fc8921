import EmbeddedTcl.Cursor
import EmbeddedTcl.Interp.Dispatch

/-!
# Reading from a cursor

The parts of an evaluation as single steps on a cursor, for a host that drives them itself.
-/

namespace EmbeddedTcl

variable {H : Type}

/-- What a step on a cursor leaves behind. -/
structure Reading (H α : Type) where
  outcome : Except Fault α
  cursor : Cursor
  state : State H

namespace Env

variable {α : Type}

/-- Scans what `cursor` still has to read, after skipping its first `skipped` characters. -/
def scanAt {after : List Char → List Char} (cursor : Cursor) (skipped : Nat) (st : State H)
    (scan : (text : List Char) → Scan H α text (after text)) : Reading H α :=
  match cursor.view? (cursor.position + skipped) with
  | none => ⟨.error .outOfRange, cursor.advance skipped, st⟩
  | some text =>
    let s := scan text
    ⟨s.outcome, cursor.withRest s.rest, s.state⟩

/-- Reads one command. An embedded one starts after the bracket at the cursor. -/
def readCommand (env : Env H) (embedded : Bool) (cursor : Cursor) (st : State H) :
    Reading H (List String) :=
  scanAt cursor (if embedded then 1 else 0) st fun text =>
    scanCommand (env.entry st) cursor.source embedded st text

def readBare (env : Env H) (embedded : Bool) (cursor : Cursor) (st : State H) :
    Reading H (List Char) :=
  scanAt cursor 0 st fun text => scanBare (env.entry st) cursor.source embedded st text

/-- Reads a quoted word from its opening quote on. -/
def readQuoted (env : Env H) (cursor : Cursor) (st : State H) : Reading H (List Char) :=
  let r := scanAt cursor 1 st fun text => scanQuoted (env.entry st) cursor.source st text
  { r with outcome := r.outcome.bind fun
      | none => .error (.script (.unclosedQuote (some cursor.position)))
      | some word => .ok word }

/-- Reads an embedded command from its opening bracket on, and runs it. -/
def readEmbedded (env : Env H) (cursor : Cursor) (st : State H) : Reading H (List Char) :=
  scanAt cursor 1 st fun text => scanEmbedded (env.entry st) cursor.source st text

/-- Reads a variable reference and looks the variable up. -/
def readVariable (cursor : Cursor) (st : State H) : Reading H String :=
  match cursor.readVariable with
  | (.ok name, cursor') => ⟨st.lookup name, cursor', st⟩
  | (.error fault, cursor') => ⟨.error fault, cursor', st⟩

/-- Evaluates a script from the cursor on. -/
def evaluateCursor (env : Env H) (cursor : Cursor) (st : State H) : Reading H Completion :=
  let st := { st with pendingReturn := false }
  scanAt cursor 0 st fun text => runScript (env.entry st) cursor.source {} st text

end Env

end EmbeddedTcl
