import EmbeddedTcl.Interp.Script

/-!
# Word trees

The words of a command as they stand in the text, before anything is substituted: each word is a
row of pieces, and a piece in brackets holds the words of another command. Two halves of reading
a command are kept apart here. `parseWords` and its companions cut a text into trees and look at
nothing but the text; `evalWords` and its companions give the trees their values from left to
right and never look at the text again. A script is a row of such commands.
-/

namespace EmbeddedTcl

variable {H α β γ δ : Type}

/-! ## Outcomes in sequence -/

/-- What a piece of work gives, with the state that it leaves behind however it ends. -/
abbrev Outcome (H α : Type) := Except Fault α × State H

namespace Outcome

/-- Goes on from a success; a fault stays as it is. -/
def andThen (o : Outcome H α) (next : α → State H → Outcome H β) : Outcome H β :=
  match o with
  | (.ok value, st) => next value st
  | (.error fault, st) => (.error fault, st)

def map (f : α → β) (o : Outcome H α) : Outcome H β :=
  andThen o fun value st => (.ok (f value), st)

@[simp]
theorem andThen_ok (value : α) (st : State H) (next : α → State H → Outcome H β) :
    andThen (.ok value, st) next = next value st := rfl

@[simp]
theorem andThen_error (fault : Fault) (st : State H) (next : α → State H → Outcome H β) :
    andThen (.error fault, st) next = (.error fault, st) := rfl

@[simp]
theorem map_ok (f : α → β) (value : α) (st : State H) :
    map f (.ok value, st) = (.ok (f value), st) := rfl

@[simp]
theorem map_error (f : α → β) (fault : Fault) (st : State H) :
    map f (.error fault, st) = (.error fault, st) := rfl

theorem andThen_assoc (o : Outcome H α) (f : α → State H → Outcome H β)
    (g : β → State H → Outcome H γ) :
    andThen (andThen o f) g = andThen o fun value st => andThen (f value st) g := by
  rcases o with ⟨_ | _, _⟩ <;> rfl

theorem andThen_map (f : α → β) (o : Outcome H α) (next : β → State H → Outcome H γ) :
    andThen (map f o) next = andThen o fun value st => next (f value) st := by
  rcases o with ⟨_ | _, _⟩ <;> rfl

theorem map_andThen (f : β → γ) (o : Outcome H α) (next : α → State H → Outcome H β) :
    map f (andThen o next) = andThen o fun value st => map f (next value st) := by
  rcases o with ⟨_ | _, _⟩ <;> rfl

theorem map_map (f : α → β) (g : β → γ) (o : Outcome H α) :
    map g (map f o) = map (fun value => g (f value)) o := by
  rcases o with ⟨_ | _, _⟩ <;> rfl

theorem snd_map (f : α → β) (o : Outcome H α) : (map f o).2 = o.2 := by
  rcases o with ⟨_ | _, _⟩ <;> rfl

@[simp]
theorem map_id_fun (o : Outcome H α) : map (fun value => value) o = o := by
  rcases o with ⟨_ | _, _⟩ <;> rfl

end Outcome

open Outcome

/-! ## Trees -/

/-- One unit of a word: a character that stands for itself, a decoded escape, a variable by its
name, or a command in brackets with its own words. -/
inductive Piece where
  | char (c : Char)
  | escaped (value : List Char)
  | read (name : String)
  | command (words : List (List Piece))

abbrev Word := List Piece

/-- Text that is no command: what is wrong with it, and the pieces that stand complete in front of
the fault, at every depth of brackets, in the order of the text. -/
structure Malformed where
  before : List Piece
  error : Error
  syntactic : error.isSyntactic = true

/-- Adds pieces that stand in front. -/
def Malformed.after (front : List Piece) (m : Malformed) : Malformed :=
  { m with before := front ++ m.before }

/-- A value read off the front of a text, with what is left of it. -/
structure Parsed (α : Type) (text : List Char) where
  value : α
  rest : List Char
  within : rest <:+ text

abbrev Parse (α : Type) (text : List Char) := Except Malformed (Parsed α text)

namespace Parse

variable {text whole : List Char}

def widen (p : Parse α text) (h : text <:+ whole) : Parse α whole :=
  match p with
  | .ok r => .ok ⟨r.value, r.rest, r.within.trans h⟩
  | .error m => .error m

/-- Reads on from what was read. -/
def andThen (p : Parse α text) (next : Parsed α text → Parse β whole) : Parse β whole :=
  match p with
  | .ok r => next r
  | .error m => .error m

/-- Puts something in front of what was read; `front` are its pieces. -/
def after (front : List Piece) (f : α → β) (p : Parse α text) : Parse β text :=
  match p with
  | .ok r => .ok ⟨f r.value, r.rest, r.within⟩
  | .error m => .error (m.after front)

/-- Puts a piece in front of the rest of its word. -/
def push (piece : Piece) (p : Parse Word text) : Parse Word text :=
  p.after [piece] (piece :: ·)

/-- Puts a word in front of the words after it. -/
def cons (word : Word) (p : Parse (List Word) text) : Parse (List Word) text :=
  p.after word (word :: ·)

end Parse

/-! ## From text to trees -/

/-- The position at which `rest` starts in a text of `size` characters. -/
def positionOf (size : Nat) (rest : List Char) : Option Int :=
  some (size - rest.length)

mutual

/-- The words up to the end of a command; the terminator is taken along. -/
def parseWords (size : Nat) (embedded : Bool) (text : List Char) :
    Parse (List Word) text.tail :=
  match text with
  | [] => .ok ⟨[], [], List.suffix_rfl⟩
  | c :: rest =>
    if c = ';' ∨ c = '\n' ∨ (embedded = true ∧ c = ']') then .ok ⟨[], rest, List.suffix_rfl⟩
    else if isBlank c then (parseWords size embedded rest).widen (List.tail_suffix rest)
    else if c = '"' then
      (parseQuoted size (c :: rest) rest).andThen fun word =>
        ((parseWords size embedded word.rest).cons word.value).widen
          ((List.tail_suffix word.rest).trans word.within)
    else if c = '{' then
      match readBraced rest with
      | .error unclosed =>
        .error ⟨[], .unclosedBrace (positionOf size (unclosed.getD (c :: rest))), rfl⟩
      | .ok word =>
        ((parseWords size embedded word.rest).cons (word.value.map .char)).widen
          ((List.tail_suffix word.rest).trans word.within)
    else
      (parseUnit size c rest).andThen fun first =>
        ((parseBare size embedded first.rest).push first.value).andThen fun word =>
          ((parseWords size embedded word.rest).cons word.value).widen
            ((List.tail_suffix word.rest).trans (word.within.trans first.within))
termination_by 4 * text.length + 2
decreasing_by
  · simp only [List.length_cons]
    omega
  · simp only [List.length_cons]
    omega
  · have := word.within.length_le
    simp only [List.length_cons]
    omega
  · have := word.within.length_le
    simp only [List.length_cons]
    omega
  · simp only [List.length_cons]
    omega
  · have := first.within.length_le
    simp only [List.length_cons]
    omega
  · have h₁ := first.within.length_le
    have h₂ := word.within.length_le
    simp only [List.length_cons]
    omega

/-- The rest of a bare word. -/
def parseBare (size : Nat) (embedded : Bool) (text : List Char) : Parse Word text :=
  match text with
  | [] => .ok ⟨[], [], List.suffix_rfl⟩
  | c :: rest =>
    if isBlank c ∨ c = ';' ∨ (embedded = true ∧ c = ']') then .ok ⟨[], c :: rest, List.suffix_rfl⟩
    else
      (parseUnit size c rest).andThen fun first =>
        ((parseBare size embedded first.rest).push first.value).widen
          (first.within.trans (List.suffix_cons c rest))
termination_by 4 * text.length + 1
decreasing_by
  · simp only [List.length_cons]
    omega
  · have := first.within.length_le
    simp only [List.length_cons]
    omega

/-- The rest of a quoted word and its closing quote. `opening` is the text from the opening quote
on. -/
def parseQuoted (size : Nat) (opening text : List Char) : Parse Word text :=
  match text with
  | [] => .error ⟨[], .unclosedQuote (positionOf size opening), rfl⟩
  | c :: rest =>
    if c = '"' then .ok ⟨[], rest, List.suffix_cons c rest⟩
    else
      (parseUnit size c rest).andThen fun first =>
        ((parseQuoted size opening first.rest).push first.value).widen
          (first.within.trans (List.suffix_cons c rest))
termination_by 4 * text.length + 1
decreasing_by
  · simp only [List.length_cons]
    omega
  · have := first.within.length_le
    simp only [List.length_cons]
    omega

/-- One character of a word, with what belongs to it if it opens a substitution. -/
def parseUnit (size : Nat) (c : Char) (rest : List Char) : Parse Piece rest :=
  if c = '\\' then
    match readEscape rest with
    | .error (char, form) =>
      .error ⟨[], .unsupportedEscape (String.ofList [char]) form.name (positionOf size (c :: rest)),
        rfl⟩
    | .ok escape => .ok ⟨.escaped escape.value, escape.rest, escape.within⟩
  else if c = '$' then
    .ok ⟨.read (VarRef.read rest).name, (VarRef.read rest).rest, (VarRef.read rest).within⟩
  else if c = '[' then
    ((parseWords size true (skipLayout rest)).widen
      ((List.tail_suffix _).trans (skipLayout_suffix rest))).after [] .command
  else .ok ⟨.char c, rest, List.suffix_rfl⟩
termination_by 4 * rest.length + 3
decreasing_by
  have := (skipLayout_suffix rest).length_le
  omega

end

theorem tail_skipLayout_suffix (text : List Char) : (skipLayout text).tail <:+ text.tail :=
  tail_suffix_tail (skipLayout_suffix text)

/-- One command from where it may start: layout, then words. -/
def parseCommand (size : Nat) (embedded : Bool) (text : List Char) : Parse (List Word) text.tail :=
  (parseWords size embedded (skipLayout text)).widen (tail_skipLayout_suffix text)

/-- A script as a row of commands. Text that is no command ends it. -/
inductive Script where
  | stop
  | broken (m : Malformed)
  | command (words : List Word) (more : Script)

def parseScript (size : Nat) (text : List Char) : Script :=
  match text with
  | [] => .stop
  | c :: rest =>
    match parseCommand size false (c :: rest) with
    | .error m => .broken m
    | .ok r => .command r.value (parseScript size r.rest)
termination_by text.length
decreasing_by
  have := r.within.length_le
  simp only [List.length_cons, List.tail_cons] at *
  omega

def Script.ofString (script : String) : Script :=
  parseScript script.toList.length script.toList

/-! ## From trees to values -/

/-- Runs an embedded command whose words are known. A return that an earlier command of the same
words left pending is kept from it, and joined with its own. -/
def runEmbedded (d : Dispatcher H) (words : List String) (st : State H) : Outcome H (List Char) :=
  if words.isEmpty then (.ok [], st)
  else
    andThen (d words { st with pendingReturn := false }) fun completion st' =>
      (.ok completion.value.toList,
        { st' with pendingReturn := st.pendingReturn || completion.returning })

mutual

/-- The text that a piece stands for at this moment. -/
def Piece.eval (d : Dispatcher H) : Piece → State H → Outcome H (List Char)
  | .char c, st => (.ok [c], st)
  | .escaped value, st => (.ok value, st)
  | .read name, st => ((st.lookup name).map String.toList, st)
  | .command words, st => andThen (evalWords d words st) (runEmbedded d)

/-- The texts of the pieces, one after the other. -/
def evalWord (d : Dispatcher H) : List Piece → State H → Outcome H (List Char)
  | [], st => (.ok [], st)
  | piece :: more, st =>
    andThen (piece.eval d st) fun first st' => map (first ++ ·) (evalWord d more st')

def evalWords (d : Dispatcher H) : List (List Piece) → State H → Outcome H (List String)
  | [], st => (.ok [], st)
  | word :: more, st =>
    andThen (evalWord d word st) fun text st' =>
      map (String.ofList text :: ·) (evalWords d more st')

end

/-- Evaluates what stands complete in front of the fault, and then fails. -/
def Malformed.raise (d : Dispatcher H) (m : Malformed) (st : State H) : Outcome H α :=
  andThen (evalWord d m.before st) fun _ st' => (.error (.script m.error), st')

/-- Runs the commands of a script, each as soon as its words are evaluated. `last` is the completion
of the command before. -/
def Script.run (d : Dispatcher H) : Script → Completion → State H → Outcome H Completion
  | .stop, last, st => (.ok last, st)
  | .broken m, _, st => m.raise d st
  | .command words more, last, st =>
    andThen (evalWords d words st) fun texts st' =>
      if texts.isEmpty then more.run d last { st' with pendingReturn := false }
      else
        andThen (d texts { st' with pendingReturn := false }) fun completion st'' =>
          if (completion.returningIf st'.pendingReturn).returning then
            (.ok (completion.returningIf st'.pendingReturn), st'')
          else more.run d completion st''

/-- Evaluates what was parsed, and keeps the text that is left. -/
def Parse.run {text : List Char} (d : Dispatcher H) (eval : α → State H → Outcome H β)
    (p : Parse α text) (st : State H) : Outcome H (β × List Char) :=
  match p with
  | .ok r => map (·, r.rest) (eval r.value st)
  | .error m => m.raise d st

theorem evalWord_append (d : Dispatcher H) (front back : List Piece) (st : State H) :
    evalWord d (front ++ back) st =
      andThen (evalWord d front st) fun text st' => map (text ++ ·) (evalWord d back st') := by
  induction front generalizing st with
  | nil => simp [evalWord]
  | cons piece more ih =>
      simp only [List.cons_append, evalWord, ih, andThen_assoc, andThen_map, map_andThen, map_map,
        List.append_assoc]

theorem evalWord_char (d : Dispatcher H) (text : List Char) (st : State H) :
    evalWord d (text.map .char) st = (.ok text, st) := by
  induction text with
  | nil => rfl
  | cons c more ih => simp [evalWord, Piece.eval, ih]

theorem Malformed.raise_after (d : Dispatcher H) (front : List Piece) (m : Malformed)
    (st : State H) :
    ((m.after front).raise d st : Outcome H α) =
      andThen (evalWord d front st) fun _ st' => m.raise d st' := by
  simp only [raise, after, evalWord_append, andThen_assoc, andThen_map]

theorem Malformed.raise_nil (d : Dispatcher H) {m : Malformed} (h : m.before = []) (st : State H) :
    (m.raise d st : Outcome H α) = (.error (.script m.error), st) := by
  rw [raise, h, evalWord, andThen_ok]

theorem Malformed.snd_raise (d : Dispatcher H) (m : Malformed) (st : State H) :
    (m.raise d st : Outcome H α).2 = (evalWord d m.before st).2 := by
  unfold raise
  rcases evalWord d m.before st with ⟨_ | _, _⟩ <;> rfl

theorem Malformed.andThen_raise (d : Dispatcher H) (m : Malformed) (st : State H)
    (next : α → State H → Outcome H β) : andThen (m.raise d st) next = m.raise d st := by
  simp only [raise, andThen_assoc, andThen_error]

namespace Parse

variable {text whole : List Char}

@[simp]
theorem run_widen (d : Dispatcher H) (eval : α → State H → Outcome H β) (p : Parse α text)
    (h : text <:+ whole) (st : State H) : (p.widen h).run d eval st = p.run d eval st := by
  cases p <;> rfl

theorem run_malformed (d : Dispatcher H) (eval : α → State H → Outcome H β) {m : Malformed}
    (h : m.before = []) (st : State H) :
    run d eval (Except.error m : Parse α text) st = (.error (.script m.error), st) :=
  Malformed.raise_nil d h st

theorem run_command (d : Dispatcher H) (p : Parse (List Word) text) (st : State H) :
    (p.after [] .command).run d (Piece.eval d) st =
      Outcome.andThen (p.run d (evalWords d) st) fun read st' =>
        map (·, read.2) (runEmbedded d read.1 st') := by
  cases p with
  | ok r => simp only [after, run, Piece.eval, map_andThen, andThen_map]
  | error m => exact (Malformed.andThen_raise d m st _).symm

theorem run_push (d : Dispatcher H) (piece : Piece) (p : Parse Word text) (st : State H) :
    (p.push piece).run d (evalWord d) st =
      Outcome.andThen (piece.eval d st) fun first st' =>
        map (fun more => (first ++ more.1, more.2)) (p.run d (evalWord d) st') := by
  cases p with
  | ok r => simp only [push, after, run, evalWord, map_andThen, map_map]
  | error m =>
      simp only [push, after, run, Malformed.raise_after, evalWord, andThen_assoc, map_ok,
        andThen_ok]
      congr 1
      funext first st'
      exact (Malformed.andThen_raise d m st' _).symm

theorem run_cons (d : Dispatcher H) (word : Word) (p : Parse (List Word) text) (st : State H) :
    (p.cons word).run d (evalWords d) st =
      Outcome.andThen (evalWord d word st) fun first st' =>
        map (fun more => (String.ofList first :: more.1, more.2)) (p.run d (evalWords d) st') := by
  cases p with
  | ok r => simp only [cons, after, run, evalWords, map_andThen, map_map]
  | error m =>
      simp only [cons, after, run, Malformed.raise_after]
      congr 1
      funext first st'
      exact (Malformed.andThen_raise d m st' _).symm

/-- Parsing on is evaluating on: if evaluating the rest of the work takes the value of what was
parsed first and the text that was left, then the two evaluations follow each other. -/
theorem run_andThen (d : Dispatcher H) (eval : α → State H → Outcome H β)
    (eval' : γ → State H → Outcome H δ) (p : Parse α text) (next : Parsed α text → Parse γ whole)
    (step : β → List Char → State H → Outcome H (δ × List Char))
    (h : ∀ r st, (next r).run d eval' st =
      Outcome.andThen (eval r.value st) fun value st' => step value r.rest st') (st : State H) :
    (p.andThen next).run d eval' st =
      Outcome.andThen (p.run d eval st) fun read st' => step read.1 read.2 st' := by
  cases p with
  | ok r =>
      simp only [andThen, run, andThen_map]
      exact h r st
  | error m => exact (Malformed.andThen_raise d m st _).symm

end Parse

end EmbeddedTcl
