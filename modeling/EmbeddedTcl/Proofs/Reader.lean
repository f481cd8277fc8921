import EmbeddedTcl.Proofs.WordTree
import Mathlib.Algebra.GroupWithZero.Nat

/-!
# Readers

The reading of a text as single steps without any recursion. Each routine is a task on a stack; it
looks at the next one or two characters, takes them or leaves them, and hands what it has read to
the task below. Whatever the text, a step takes characters away, or it takes none and leaves less to
do before the next one is taken.
-/

namespace EmbeddedTcl

/-! ## Tasks -/

/-- A routine at work on a text, with what it has read so far. The text from the opening quote or
brace on is kept to tell where it stands. -/
inductive Task where
  | layout (embedded : Bool)
  | comment
  | command (embedded : Bool) (words : List String)
  | bare (embedded : Bool) (chars : List Char)
  | quoted (opening chars : List Char)
  | braced (opening chars : List Char)
  | bracedName (chars : List Char)
  | plainName (chars : List Char)
  | index (chars : List Char)

namespace Task

/-- Takes over what another task has read. -/
def receive (read : List Char) : Task → Task
  | command embedded words => command embedded (words ++ [String.ofList read])
  | bare embedded chars => bare embedded (chars ++ read)
  | quoted opening chars => quoted opening (chars ++ read)
  | braced opening chars => braced opening (chars ++ '{' :: (read ++ ['}']))
  | task => task

/-- Gives what was read to the innermost task. -/
def hand (read : List Char) : List Task → List Task
  | [] => []
  | task :: below => task.receive read :: below

end Task

/-- A text with `rest` still to be read, the completion of its last command, and the tasks at work,
innermost first. With no task it stands between two commands. -/
structure Reader where
  text : List Char
  last : Completion := {}
  tasks : List Task := []
  rest : List Char

/-- What a reader does next by itself, or what it needs: the value of a variable for the innermost
task, or a command to be run. -/
inductive Action where
  | go (r : Reader)
  | lookup (name : String) (r : Reader)
  | run (words : List String) (r : Reader)
  | fail (error : Error)
  | finish (completion : Completion)

namespace Reader

def start (text : String) : Reader :=
  { text := text.toList, rest := text.toList }

/-- The same text with other tasks at another place. -/
def on (r : Reader) (tasks : List Task) (rest : List Char) : Reader :=
  { r with tasks, rest }

def hand (r : Reader) (chars : List Char) : Reader :=
  { r with tasks := Task.hand chars r.tasks }

section

variable (r : Reader)

def skipLayoutStep (embedded : Bool) (below : List Task) : List Char → Action
  | [] => .go (r.on (.command embedded [] :: below) [])
  | c :: rest =>
    if isBlank c then .go (r.on (.layout embedded :: below) rest)
    else if c = '#' then .go (r.on (.comment :: .layout embedded :: below) rest)
    else .go (r.on (.command embedded [] :: below) (c :: rest))

def skipCommentStep (below : List Task) : List Char → Action
  | [] => .go (r.on below [])
  | '\n' :: rest => .go (r.on below rest)
  | '\\' :: '\n' :: rest => .go (r.on (.comment :: below) rest)
  | '\\' :: '\\' :: rest => .go (r.on (.comment :: below) rest)
  | _ :: rest => .go (r.on (.comment :: below) rest)

/-- Reads one unit of a word. The innermost of `tasks` gets it, at once or when what it opens has
been read. -/
def unitStep (tasks : List Task) (c : Char) (rest : List Char) : Action :=
  if c = '\\' then
    match readEscape rest with
    | .error (char, form) =>
      .fail (.unsupportedEscape (String.ofList [char]) form.name (positionOf r.text.length (c :: rest)))
    | .ok escape => .go (r.on (Task.hand escape.value tasks) escape.rest)
  else if c = '$' then
    match rest with
    | '{' :: rest => .go (r.on (.bracedName [] :: tasks) rest)
    | rest => .go (r.on (.plainName [] :: tasks) rest)
  else if c = '[' then .go (r.on (.layout true :: tasks) rest)
  else .go (r.on (Task.hand [c] tasks) rest)

def commandStep (embedded : Bool) (words : List String) (below : List Task) : List Char → Action
  | [] => .run words (r.on below [])
  | c :: rest =>
    let self := Task.command embedded words :: below
    if c = ';' ∨ c = '\n' ∨ (embedded = true ∧ c = ']') then .run words (r.on below rest)
    else if isBlank c then .go (r.on self rest)
    else if c = '"' then .go (r.on (.quoted (c :: rest) [] :: self) rest)
    else if c = '{' then .go (r.on (.braced (c :: rest) [] :: self) rest)
    -- the first unit is read along with the start of a bare word
    else r.unitStep (.bare embedded [] :: self) c rest

def bareStep (embedded : Bool) (chars : List Char) (below : List Task) : List Char → Action
  | [] => .go (r.on (Task.hand chars below) [])
  | c :: rest =>
    if isBlank c ∨ c = ';' ∨ (embedded = true ∧ c = ']') then
      .go (r.on (Task.hand chars below) (c :: rest))
    else r.unitStep (.bare embedded chars :: below) c rest

def quotedStep (opening chars : List Char) (below : List Task) : List Char → Action
  | [] => .fail (.unclosedQuote (positionOf r.text.length opening))
  | c :: rest =>
    if c = '"' then .go (r.on (Task.hand chars below) rest)
    else r.unitStep (.quoted opening chars :: below) c rest

def bracedStep (opening chars : List Char) (below : List Task) : List Char → Action
  | [] => .fail (.unclosedBrace (positionOf r.text.length opening))
  | c :: rest =>
    if c = '}' then .go (r.on (Task.hand chars below) rest)
    else if c = '{' then
      .go (r.on (.braced (c :: rest) [] :: .braced opening chars :: below) rest)
    else
      .go (r.on (.braced opening (chars ++ [(braceUnit c rest).1]) :: below) (braceUnit c rest).2)

def bracedNameStep (chars : List Char) (below : List Task) : List Char → Action
  | [] => .lookup (String.ofList chars) (r.on below [])
  | c :: rest =>
    if c = '}' then .lookup (String.ofList chars) (r.on below rest)
    else .go (r.on (.bracedName (chars ++ [c]) :: below) rest)

def plainNameStep (chars : List Char) (below : List Task) : List Char → Action
  | [] => .lookup (String.ofList chars) (r.on below [])
  | c :: rest =>
    if isNameChar c then .go (r.on (.plainName (chars ++ [c]) :: below) rest)
    else if c = '(' then .go (r.on (.index (chars ++ [c]) :: below) rest)
    else .lookup (String.ofList chars) (r.on below (c :: rest))

def indexStep (chars : List Char) (below : List Task) : List Char → Action
  | [] => .lookup (String.ofList chars) (r.on below [])
  | c :: rest =>
    if isIndexChar c then .go (r.on (.index (chars ++ [c]) :: below) rest)
    else .lookup (String.ofList (if c = ')' then chars ++ [c] else chars)) (r.on below rest)

def step : Action :=
  match r.tasks with
  | [] => if r.rest.isEmpty then .finish r.last else .go (r.on [.layout false] r.rest)
  | .layout embedded :: below => r.skipLayoutStep embedded below r.rest
  | .comment :: below => r.skipCommentStep below r.rest
  | .command embedded words :: below => r.commandStep embedded words below r.rest
  | .bare embedded chars :: below => r.bareStep embedded chars below r.rest
  | .quoted opening chars :: below => r.quotedStep opening chars below r.rest
  | .braced opening chars :: below => r.bracedStep opening chars below r.rest
  | .bracedName chars :: below => r.bracedNameStep chars below r.rest
  | .plainName chars :: below => r.plainNameStep chars below r.rest
  | .index chars :: below => r.indexStep chars below r.rest

end

end Reader

/-! ## Reading gets on -/

/-- What a task may still do without taking a character: a command ends, layout ends and a command
starts, and any other task ends. -/
def Task.weight : Task → Nat
  | command _ _ => 1
  | layout _ => 2
  | _ => 4

def Task.load (tasks : List Task) : Nat :=
  (tasks.map weight).sum

namespace Reader

/-- The same for all tasks. Between two commands the next one may start, unless the text is at its
end. -/
def weight (r : Reader) : Nat :=
  match r.tasks with
  | [] => if r.rest.isEmpty then 0 else 3
  | tasks => Task.load tasks

/-- The rest of the text is a suffix of what it was: nothing is read twice or behind the end. It is
shorter than before, and not much more is to do; or it is the same, and less is to do. -/
structure Advances (r r' : Reader) : Prop where
  text_eq : r'.text = r.text
  suffix : r'.rest <:+ r.rest
  progress : (r'.rest.length < r.rest.length ∧ r'.weight ≤ r.weight + 11) ∨
    (r'.rest = r.rest ∧ r'.weight < r.weight)

end Reader

theorem Task.weight_pos (task : Task) : 0 < task.weight := by
  cases task <;> simp [weight]

@[simp]
theorem Task.weight_receive (read : List Char) (task : Task) :
    (task.receive read).weight = task.weight := by
  cases task <;> rfl

@[simp]
theorem Task.load_nil : load [] = 0 := rfl

@[simp]
theorem Task.load_cons (task : Task) (below : List Task) :
    load (task :: below) = task.weight + load below := by
  simp [load]

@[simp]
theorem Task.load_hand (read : List Char) (tasks : List Task) :
    load (hand read tasks) = load tasks := by
  cases tasks <;> simp [hand]

namespace Reader

variable (r : Reader)

theorem weight_on_cons (task : Task) (below : List Task) (rest : List Char) :
    (r.on (task :: below) rest).weight = task.weight + Task.load below := by
  simp [weight, on]

theorem load_le_weight_on (tasks : List Task) (rest : List Char) :
    Task.load tasks ≤ (r.on tasks rest).weight := by
  cases tasks with
  | nil => exact Nat.zero_le _
  | cons task below => exact Nat.le_refl _

theorem weight_on_le (tasks : List Task) (rest : List Char) :
    (r.on tasks rest).weight ≤ Task.load tasks + 3 := by
  cases tasks with
  | nil => cases rest <;> simp [weight, on]
  | cons task below => exact Nat.le_add_right _ 3

theorem weight_on_nil_le (tasks : List Task) : (r.on tasks []).weight ≤ Task.load tasks := by
  cases tasks <;> simp [weight, on]

@[simp]
theorem weight_hand (chars : List Char) : (r.hand chars).weight = r.weight := by
  obtain ⟨text, last, tasks, rest⟩ := r
  cases tasks <;> simp [hand, weight, Task.hand]

namespace Advances

variable {r} {tasks tasks' : List Task}

theorem take {c : Char} {rest rest' : List Char} (h : rest' <:+ rest)
    (hload : Task.load tasks' ≤ Task.load tasks + 8) :
    (r.on tasks (c :: rest)).Advances (r.on tasks' rest') where
  text_eq := rfl
  suffix := h.trans (List.suffix_cons c rest)
  progress := by
    have hbefore := r.load_le_weight_on tasks (c :: rest)
    have hafter := r.weight_on_le tasks' rest'
    have hlength : rest'.length < (c :: rest).length := Nat.lt_succ_of_le h.length_le
    exact .inl ⟨hlength, by omega⟩

theorem leave {rest : List Char} (h : (r.on tasks' rest).weight < (r.on tasks rest).weight) :
    (r.on tasks rest).Advances (r.on tasks' rest) :=
  ⟨rfl, List.suffix_rfl, .inr ⟨rfl, h⟩⟩

/-- A task that stops in front of a character leaves the others as they are or hands on what it has
read. -/
theorem pop {task : Task} {below : List Task} (htask : task.weight = 4)
    (hload : Task.load tasks' = Task.load below) (rest : List Char) :
    (r.on (task :: below) rest).Advances (r.on tasks' rest) := by
  have hafter := r.weight_on_le tasks' rest
  refine leave ?_
  rw [weight_on_cons, htask]
  omega

theorem hand {r' : Reader} (h : r.Advances r') (chars : List Char) : r.Advances (r'.hand chars) where
  text_eq := h.text_eq
  suffix := h.suffix
  progress := by
    rw [weight_hand]
    exact h.progress

theorem end_of_text {task : Task} {below : List Task} :
    (r.on (task :: below) []).Advances (r.on below []) := by
  have hpos := task.weight_pos
  have hafter := r.weight_on_nil_le below
  refine leave ?_
  rw [weight_on_cons]
  omega

end Advances

end Reader

/-- Whatever the action goes on with is ahead of `r`. -/
def Action.Ahead (r : Reader) : Action → Prop
  | go r' => r.Advances r'
  | lookup _ r' => r.Advances r'
  | run _ r' => r.Advances r'
  | fail _ => True
  | finish _ => True

namespace Reader

variable (r : Reader)

theorem skipLayoutStep_ahead (embedded : Bool) (below : List Task) (text : List Char) :
    (r.skipLayoutStep embedded below text).Ahead (r.on (.layout embedded :: below) text) := by
  have hend : ∀ text, (r.on (.layout embedded :: below) text).Advances
      (r.on (.command embedded [] :: below) text) := by
    intro text
    refine .leave ?_
    rw [weight_on_cons, weight_on_cons]
    exact Nat.add_lt_add_right (Nat.lt_succ_self 1) _
  cases text with
  | nil => exact hend []
  | cons c rest =>
      rw [skipLayoutStep]
      split
      · exact .take List.suffix_rfl (by omega)
      split
      · exact .take List.suffix_rfl (by simp [Task.weight]; omega)
      · exact hend (c :: rest)

theorem skipCommentStep_ahead (below : List Task) (text : List Char) :
    (r.skipCommentStep below text).Ahead (r.on (.comment :: below) text) := by
  unfold skipCommentStep
  split
  · exact Advances.end_of_text
  · exact .take List.suffix_rfl (by simp; omega)
  · exact .take (List.suffix_cons _ _) (by omega)
  · exact .take (List.suffix_cons _ _) (by omega)
  · exact .take List.suffix_rfl (by omega)

theorem unitStep_ahead {tasks before : List Task} (hload : Task.load tasks ≤ Task.load before + 4)
    (c : Char) (rest : List Char) :
    (r.unitStep tasks c rest).Ahead (r.on before (c :: rest)) := by
  unfold unitStep
  split
  · split
    · trivial
    · rename_i escape _
      exact .take escape.within (by simp; omega)
  split
  · split
    · exact .take (List.suffix_cons _ _) (by simp [Task.weight]; omega)
    · exact .take List.suffix_rfl (by simp [Task.weight]; omega)
  split
  · exact .take List.suffix_rfl (by simp [Task.weight]; omega)
  · exact .take List.suffix_rfl (by simp; omega)

theorem commandStep_ahead (embedded : Bool) (words : List String) (below : List Task)
    (text : List Char) :
    (r.commandStep embedded words below text).Ahead
      (r.on (.command embedded words :: below) text) := by
  cases text with
  | nil => exact Advances.end_of_text
  | cons c rest =>
      simp only [commandStep]
      split
      · exact Advances.take List.suffix_rfl (by simp; omega)
      split
      · exact Advances.take List.suffix_rfl (by omega)
      split
      · exact Advances.take List.suffix_rfl (by simp [Task.weight]; omega)
      split
      · exact Advances.take List.suffix_rfl (by simp [Task.weight]; omega)
      · exact r.unitStep_ahead (by simp [Task.weight]; omega) c rest

theorem bareStep_ahead (embedded : Bool) (chars : List Char) (below : List Task)
    (text : List Char) :
    (r.bareStep embedded chars below text).Ahead (r.on (.bare embedded chars :: below) text) := by
  cases text with
  | nil => exact Advances.pop rfl (Task.load_hand ..) []
  | cons c rest =>
      rw [bareStep]
      split
      · exact Advances.pop rfl (Task.load_hand ..) (c :: rest)
      · exact r.unitStep_ahead (by omega) c rest

theorem quotedStep_ahead (opening chars : List Char) (below : List Task) (text : List Char) :
    (r.quotedStep opening chars below text).Ahead (r.on (.quoted opening chars :: below) text) := by
  cases text with
  | nil => trivial
  | cons c rest =>
      rw [quotedStep]
      split
      · exact Advances.take List.suffix_rfl (by simp; omega)
      · exact r.unitStep_ahead (by omega) c rest

theorem bracedStep_ahead (opening chars : List Char) (below : List Task) (text : List Char) :
    (r.bracedStep opening chars below text).Ahead (r.on (.braced opening chars :: below) text) := by
  cases text with
  | nil => trivial
  | cons c rest =>
      rw [bracedStep]
      split
      · exact Advances.take List.suffix_rfl (by simp; omega)
      split
      · exact Advances.take List.suffix_rfl (by simp [Task.weight]; omega)
      · exact Advances.take (braceUnit_suffix c rest) (by simp [Task.weight])

theorem bracedNameStep_ahead (chars : List Char) (below : List Task) (text : List Char) :
    (r.bracedNameStep chars below text).Ahead (r.on (.bracedName chars :: below) text) := by
  cases text with
  | nil => exact Advances.end_of_text
  | cons c rest =>
      rw [bracedNameStep]
      split
      · exact Advances.take List.suffix_rfl (by simp; omega)
      · exact Advances.take List.suffix_rfl (by simp [Task.weight])

theorem plainNameStep_ahead (chars : List Char) (below : List Task) (text : List Char) :
    (r.plainNameStep chars below text).Ahead (r.on (.plainName chars :: below) text) := by
  cases text with
  | nil => exact Advances.end_of_text
  | cons c rest =>
      rw [plainNameStep]
      split
      · exact Advances.take List.suffix_rfl (by simp [Task.weight])
      split
      · exact Advances.take List.suffix_rfl (by simp [Task.weight])
      · exact Advances.pop rfl rfl (c :: rest)

theorem indexStep_ahead (chars : List Char) (below : List Task) (text : List Char) :
    (r.indexStep chars below text).Ahead (r.on (.index chars :: below) text) := by
  cases text with
  | nil => exact Advances.end_of_text
  | cons c rest =>
      rw [indexStep]
      split
      · exact Advances.take List.suffix_rfl (by simp [Task.weight])
      · exact Advances.take List.suffix_rfl (by simp; omega)

/-- **Reading gets on.** Whatever a reader does, in whatever text, well formed or not, it takes
characters away or is left with less to do. -/
theorem step_ahead : r.step.Ahead r := by
  obtain ⟨text, last, tasks, rest⟩ := r
  let r : Reader := ⟨text, last, tasks, rest⟩
  match tasks with
  | [] =>
      cases rest with
      | nil => trivial
      | cons c rest =>
          have hless : (r.on [.layout false] (c :: rest)).weight < (r.on [] (c :: rest)).weight := by
            simp [weight, on, Task.weight]
          exact Advances.leave hless
  | .layout embedded :: below => exact r.skipLayoutStep_ahead embedded below rest
  | .comment :: below => exact r.skipCommentStep_ahead below rest
  | .command embedded words :: below => exact r.commandStep_ahead embedded words below rest
  | .bare embedded chars :: below => exact r.bareStep_ahead embedded chars below rest
  | .quoted opening chars :: below => exact r.quotedStep_ahead opening chars below rest
  | .braced opening chars :: below => exact r.bracedStep_ahead opening chars below rest
  | .bracedName chars :: below => exact r.bracedNameStep_ahead chars below rest
  | .plainName chars :: below => exact r.plainNameStep_ahead chars below rest
  | .index chars :: below => exact r.indexStep_ahead chars below rest

end Reader

/-- How many steps a reader may still make by itself. -/
def Reader.work (r : Reader) : Nat :=
  12 * r.rest.length + r.weight

theorem Reader.Advances.work_lt {r r' : Reader} (h : r.Advances r') : r'.work < r.work := by
  rcases h.progress with ⟨hlength, hweight⟩ | ⟨hrest, hweight⟩
  · simp only [work]
    omega
  · simp only [work, hrest]
    omega

end EmbeddedTcl
