import EmbeddedTcl.Interp.State
import EmbeddedTcl.Lexical.Braced
import EmbeddedTcl.Lexical.Escape
import EmbeddedTcl.Lexical.Layout
import EmbeddedTcl.Lexical.Source

/-!
# Substitution

Cuts a command into words and substitutes as it reads. A command in brackets is run at the moment
its closing bracket is read, while the word around it is still incomplete; text that was
substituted is not looked at again.
-/

namespace EmbeddedTcl

/-- Runs a command that is given as words, the name first. -/
abbrev Dispatcher (H : Type) := List String → State H → Except Fault Completion × State H

/-- The outcome of reading and substituting a text. A success leaves a suffix of `after` to be
read, a failure has stopped somewhere in `whole`; the state is what the commands run so far made
of it. -/
inductive Scan (H α : Type) (whole after : List Char) where
  | done (value : α) (state : State H) (rest : List Char) (within : rest <:+ after)
  | failed (fault : Fault) (state : State H) (rest : List Char) (within : rest <:+ whole)

namespace Scan

variable {H α β : Type} {whole after whole' after' : List Char}

def widen (s : Scan H α whole after) (h : whole <:+ whole') (h' : after <:+ after') :
    Scan H α whole' after' :=
  match s with
  | done value state rest within => .done value state rest (within.trans h')
  | failed fault state rest within => .failed fault state rest (within.trans h)

def map (f : α → β) : Scan H α whole after → Scan H β whole after
  | done value state rest within => .done (f value) state rest within
  | failed fault state rest within => .failed fault state rest within

def andThen (s : Scan H α whole after)
    (f : α → State H → (rest : List Char) → rest <:+ after → Scan H β whole after') :
    Scan H β whole after' :=
  match s with
  | done value state rest within => f value state rest within
  | failed fault state rest within => .failed fault state rest within

end Scan

variable {H : Type}

theorem tail_suffix_tail {l₁ l₂ : List Char} (h : l₁ <:+ l₂) : l₁.tail <:+ l₂.tail := by
  obtain ⟨front, rfl⟩ := h
  cases front with
  | nil => exact List.suffix_rfl
  | cons c front => exact (List.tail_suffix l₁).trans (List.suffix_append front l₁)

mutual

/-- Reads words up to the end of the command and takes the terminator along: a semicolon or a
newline, or for an embedded command also a closing bracket. -/
def scanWords (d : Dispatcher H) (src : Source) (embedded : Bool) (st : State H)
    (text : List Char) : Scan H (List String) text text.tail :=
  match text with
  | [] => .done [] st [] List.suffix_rfl
  | c :: rest =>
    if c = ';' ∨ c = '\n' ∨ (embedded = true ∧ c = ']') then .done [] st rest List.suffix_rfl
    else if isBlank c then
      (scanWords d src embedded st rest).widen (List.suffix_cons c rest) (List.tail_suffix rest)
    else if c = '"' then
      ((scanQuoted d src st rest).widen
        (List.suffix_cons c rest) List.suffix_rfl).andThen fun word st' rest' h =>
          match word with
          | none =>
            .failed (.script (.unclosedQuote (some (src.position (c :: rest))))) st' rest'
              (h.trans (List.suffix_cons c rest))
          | some word =>
            ((scanWords d src embedded st' rest').widen (h.trans (List.suffix_cons c rest))
              ((List.tail_suffix rest').trans h)).map (String.ofList word :: ·)
    else if c = '{' then
      match readBraced rest with
      | .error unclosed =>
        .failed (.script (.unclosedBrace (some (src.position (unclosed.getD (c :: rest)))))) st []
          List.nil_suffix
      | .ok word =>
        ((scanWords d src embedded st word.rest).widen
          (word.within.trans (List.suffix_cons c rest))
          ((List.tail_suffix word.rest).trans word.within)).map (String.ofList word.value :: ·)
    else
      (scanUnit d src st c rest).andThen fun first st' rest' h =>
        ((scanBare d src embedded st' rest').widen
          (h.trans (List.suffix_cons c rest)) h).andThen fun more st'' rest'' h' =>
            ((scanWords d src embedded st'' rest'').widen (h'.trans (List.suffix_cons c rest))
              ((List.tail_suffix rest'').trans h')).map (String.ofList (first ++ more) :: ·)
termination_by 4 * text.length + 2
decreasing_by
  · simp only [List.length_cons]
    omega
  · simp only [List.length_cons]
    omega
  · have := h.length_le
    simp only [List.length_cons]
    omega
  · have := word.within.length_le
    simp only [List.length_cons]
    omega
  · simp only [List.length_cons]
    omega
  · have := h.length_le
    simp only [List.length_cons]
    omega
  · have := h'.length_le
    simp only [List.length_cons]
    omega

/-- Reads the rest of a bare word, up to a blank, a semicolon or, in an embedded command, a
closing bracket. -/
def scanBare (d : Dispatcher H) (src : Source) (embedded : Bool) (st : State H)
    (text : List Char) : Scan H (List Char) text text :=
  match text with
  | [] => .done [] st [] List.suffix_rfl
  | c :: rest =>
    if isBlank c ∨ c = ';' ∨ (embedded = true ∧ c = ']') then
      .done [] st (c :: rest) List.suffix_rfl
    else
      (scanUnit d src st c rest).andThen fun first st' rest' h =>
        ((scanBare d src embedded st' rest').widen (h.trans (List.suffix_cons c rest))
          (h.trans (List.suffix_cons c rest))).map (first ++ ·)
termination_by 4 * text.length + 1
decreasing_by
  · simp only [List.length_cons]
    omega
  · have := h.length_le
    simp only [List.length_cons]
    omega

/-- Reads the rest of a quoted word and the closing quote. There is no word if the text ends before
the quote. -/
def scanQuoted (d : Dispatcher H) (src : Source) (st : State H) (text : List Char) :
    Scan H (Option (List Char)) text text :=
  match text with
  | [] => .done none st [] List.suffix_rfl
  | c :: rest =>
    if c = '"' then .done (some []) st rest (List.suffix_cons c rest)
    else
      (scanUnit d src st c rest).andThen fun first st' rest' h =>
        ((scanQuoted d src st' rest').widen (h.trans (List.suffix_cons c rest))
          (h.trans (List.suffix_cons c rest))).map (Option.map (first ++ ·))
termination_by 4 * text.length + 1
decreasing_by
  · simp only [List.length_cons]
    omega
  · have := h.length_le
    simp only [List.length_cons]
    omega

/-- Reads one character of a word, with what belongs to it if it opens a substitution. -/
def scanUnit (d : Dispatcher H) (src : Source) (st : State H) (c : Char) (rest : List Char) :
    Scan H (List Char) (c :: rest) rest :=
  if c = '\\' then
    match readEscape rest with
    | .error (char, form) =>
      .failed (.script (.unsupportedEscape (String.ofList [char]) form.name
        (some (src.position (c :: rest))))) st (c :: rest) List.suffix_rfl
    | .ok escape => .done escape.value st escape.rest escape.within
  else if c = '$' then
    let ref := VarRef.read rest
    match st.lookup (src.nameOf rest ref) with
    | .ok text => .done text.toList st ref.rest ref.within
    | .error fault => .failed fault st ref.rest (ref.within.trans (List.suffix_cons c rest))
  else if c = '[' then
    (scanEmbedded d src st rest).widen (List.suffix_cons c rest) List.suffix_rfl
  else .done [c] st rest List.suffix_rfl
termination_by 4 * rest.length + 4

/-- Reads an embedded command after its opening bracket and runs it. A return that an earlier
command of the same words left pending is kept from the command, and joined with its own. -/
def scanEmbedded (d : Dispatcher H) (src : Source) (st : State H) (text : List Char) :
    Scan H (List Char) text text :=
  ((scanWords d src true st (skipLayout text)).widen (skipLayout_suffix text)
    ((List.tail_suffix _).trans (skipLayout_suffix text))).andThen fun words st' rest h =>
      if words.isEmpty then .done [] st' rest h
      else
        match d words { st' with pendingReturn := false } with
        | (.ok completion, st'') =>
          .done completion.value.toList
            { st'' with pendingReturn := st'.pendingReturn || completion.returning } rest h
        | (.error fault, st'') => .failed fault st'' rest h
termination_by 4 * text.length + 3
decreasing_by
  have := (skipLayout_suffix text).length_le
  omega

end

/-- Reads one command from where it may start: layout, then words. -/
def scanCommand (d : Dispatcher H) (src : Source) (embedded : Bool) (st : State H)
    (text : List Char) : Scan H (List String) text text.tail :=
  (scanWords d src embedded st (skipLayout text)).widen (skipLayout_suffix text)
    (tail_suffix_tail (skipLayout_suffix text))

end EmbeddedTcl
