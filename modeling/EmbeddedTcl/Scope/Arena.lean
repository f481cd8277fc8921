import EmbeddedTcl.Error
import EmbeddedTcl.Scope.Basic
import EmbeddedTcl.Text.Position
import EmbeddedTcl.Text.Quoted

/-!
# Frame arenas

Frames that outlive their call. Every frame ever pushed keeps a handle, so a host may go on using
one after it was popped; links and parents are looked up among the frames that are live at the
time.
-/

namespace EmbeddedTcl

/-- A scope with its number among the live frames and that of the frame it was pushed on. -/
structure Frame where
  index : Nat
  parent : Option Nat
  slots : Scope

/-- All frames, by handle, and the handles of the live calls, innermost first. Handle 0 is the
global frame, which stays live. -/
structure Arena where
  frames : List Frame
  calls : List Nat

namespace Arena

def start : Arena :=
  ⟨[⟨0, none, Table.empty⟩], []⟩

/-- The handles of the live frames, the global one first. -/
def live (a : Arena) : List Nat :=
  0 :: a.calls.reverse

def depth (a : Arena) : Nat :=
  a.calls.length + 1

/-- The handle of the innermost live frame. -/
def current (a : Arena) : Nat :=
  a.calls.headD 0

/-- The handle of the live frame that a signed index names. -/
def liveAt (a : Arena) (i : Int) : Except Fault Nat :=
  match (place? a.depth i).bind (a.live[·]?) with
  | some handle => .ok handle
  | none => .error .outOfRange

def frame (a : Arena) (handle : Nat) : Except Fault Frame :=
  match a.frames[handle]? with
  | some frame => .ok frame
  | none => .error .outOfRange

def push (a : Arena) : Arena × Nat :=
  let handle := a.frames.length
  let parent := (a.frames[a.current]?).map Frame.index
  (⟨a.frames ++ [⟨a.depth, parent, Table.empty⟩], handle :: a.calls⟩, handle)

def pop (a : Arena) : Except Fault Nat × Arena :=
  match a.calls with
  | [] => (.error .globalScopePopped, a)
  | handle :: calls => (.ok handle, { a with calls })

/-- Pushes a frame for the time of a block, which is given its handle, and pops one however the
block is left. If there is none to pop, then that is what goes wrong, whatever the block did. -/
def pushed {m : Type → Type} [Monad m] {α : Type} (a : Arena)
    (block : Nat → Arena → m (Except Fault α × Arena)) : m (Except Fault α × Arena) := do
  let (outcome, a') ← block a.push.2 a.push.1
  return (a'.pop.1.bind fun _ => outcome, a'.pop.2)

def modify (a : Arena) (handle : Nat) (f : Scope → Scope) : Arena :=
  { a with frames := a.frames.modify handle fun frame => { frame with slots := f frame.slots } }

/-- The live frame now at the parent's number, which for a popped frame may be another one. -/
def parent (a : Arena) (handle : Nat) : Except Fault (Option Nat) := do
  match (← a.frame handle).parent with
  | none => return none
  | some i => return some (← a.liveAt i)

def scope? (a : Arena) (handle : Nat) : Option Scope :=
  (a.frames[handle]?).map Frame.slots

/-- Where an access to `name` from a frame goes: through one link at most. -/
def resolve (a : Arena) (handle : Nat) (name : String) : Except Fault (Nat × String) :=
  match (a.scope? handle).bind (·.find? name) with
  | some (.link frame target) =>
    match a.liveAt frame with
    | .ok other => .ok (other, target)
    | .error fault => .error fault
  | _ => .ok (handle, name)

def read? (a : Arena) (handle : Nat) (name : String) : Option String :=
  (a.scope? handle).bind (·.read? name)

def get (a : Arena) (handle : Nat) (name : String) : Except Fault String :=
  match a.resolve handle name with
  | .error fault => .error fault
  | .ok (other, target) =>
    match a.read? other target with
    | some text => .ok text
    | none => .error (.script (.unknownVariable name))

def set (a : Arena) (handle : Nat) (name text : String) : Except Fault Arena :=
  match a.resolve handle name with
  | .error fault => .error fault
  | .ok (other, target) => .ok (a.modify other (·.assign target text))

def has (a : Arena) (handle : Nat) (name : String) : Except Fault Bool :=
  match a.resolve handle name with
  | .error fault => .error fault
  | .ok (other, target) => .ok (a.read? other target).isSome

def link (a : Arena) (handle : Nat) (name : String) (frame : Int)
    (target : Option String) : Except Fault Arena := do
  let own ← a.frame handle
  return a.modify handle (·.link own.index name frame target)

/-- Removes the slot of `name` in the frame itself; what it linked to is left alone. -/
def unset (a : Arena) (handle : Nat) (name : String) : Except Fault Arena :=
  match (a.scope? handle).bind (·.find? name) with
  | some _ => .ok (a.modify handle (·.erase name))
  | none => .error (.script (.unknownVariable name))

end Arena

namespace Slot

def describe : Slot → String
  | value text => Quoted.ofString text
  | link frame name =>
    "Alias(frame_index=" ++ toString frame ++ ", name=" ++ Quoted.ofString name ++ ")"

end Slot

namespace Frame

def describe (f : Frame) : String :=
  let parent := match f.parent with
    | some i => toString i
    | none => "None"
  let slots := f.slots.entries.map fun entry =>
    Quoted.ofString entry.1 ++ ": " ++ entry.2.describe
  "Frame(index=" ++ toString f.index ++ ", parent=" ++ parent ++ ", variables=\x7b" ++
    ", ".intercalate slots ++ "\x7d)"

end Frame

end EmbeddedTcl
