import EmbeddedTcl.Interp.Substitute

/-!
# Scripts

A script is a sequence of commands. They are run one by one, each as soon as its words are read,
until the text ends or one of them returns.
-/

namespace EmbeddedTcl

variable {H : Type}

/-- A script ends with a command in whose words a return was embedded, whatever the command itself
says. -/
def Completion.returningIf (c : Completion) (embedded : Bool) : Completion :=
  { c with returning := c.returning || embedded }

/-- Runs the commands of a text. `last` is the completion of the command before. -/
def runScript (d : Dispatcher H) (src : Source) (last : Completion) (st : State H)
    (text : List Char) : Scan H Completion text text :=
  match text with
  | [] => .done last st [] List.suffix_rfl
  | c :: rest =>
    (scanCommand d src false st (c :: rest)).andThen fun words st' rest' h =>
      if words.isEmpty then
        (runScript d src last { st' with pendingReturn := false } rest').widen
          (h.trans (List.suffix_cons c rest)) (h.trans (List.suffix_cons c rest))
      else
        match d words { st' with pendingReturn := false } with
        | (.ok completion, st'') =>
          if (completion.returningIf st'.pendingReturn).returning then
            .done (completion.returningIf st'.pendingReturn) st'' rest'
              (h.trans (List.suffix_cons c rest))
          else
            (runScript d src completion st'' rest').widen
              (h.trans (List.suffix_cons c rest)) (h.trans (List.suffix_cons c rest))
        | (.error fault, st'') => .failed fault st'' rest' (h.trans (List.suffix_cons c rest))
termination_by text.length
decreasing_by
  · have := h.length_le
    simp only [List.length_cons, List.tail_cons] at *
    omega
  · have := h.length_le
    simp only [List.length_cons, List.tail_cons] at *
    omega

namespace Scan

variable {α : Type} {whole after : List Char}

def outcome : Scan H α whole after → Except Fault α
  | done value _ _ _ => .ok value
  | failed fault _ _ _ => .error fault

def state : Scan H α whole after → State H
  | done _ state _ _ => state
  | failed _ state _ _ => state

def rest : Scan H α whole after → List Char
  | done _ _ rest _ => rest
  | failed _ _ rest _ => rest

end Scan

/-- Runs a script and passes a return on. A return that is already pending counts. -/
def evaluateScript (d : Dispatcher H) (script : String) (st : State H) :
    Except Fault Completion × State H :=
  let scan := runScript d (.ofText script.toList) {} st script.toList
  (scan.outcome, scan.state)

/-- Runs a script from a clean start; a return ends it and goes no further. -/
def evaluate (d : Dispatcher H) (script : String) (st : State H) :
    Except Fault String × State H :=
  match evaluateScript d script { st with pendingReturn := false } with
  | (.ok completion, st') => (.ok completion.value, st')
  | (.error fault, st') => (.error fault, st')

end EmbeddedTcl
