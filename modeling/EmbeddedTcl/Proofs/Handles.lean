import EmbeddedTcl.Proofs.Frames

/-!
# Frames by number

Parents and links name a frame by its number among the live ones, and a number is used again as soon
as its frame is gone. A host may push and pop as it likes, hold on to frames that are gone, and
leave a block with an error. Still a number means what it meant, for as long as the frame that holds
it is live: the frames below a live frame are those that were below it when it was pushed, since
they outlive it and nothing is put between them.
-/

namespace EmbeddedTcl.Arena

/-! ## What a host can do -/

inductive Change where
  | push
  | pop
  | set (handle : Nat) (name text : String)
  | link (handle : Nat) (name : String) (frame : Int) (target : Option String)
  | unset (handle : Nat) (name : String)

/-- A change that fails leaves the frames as they are. -/
def changed (a : Arena) : Except Fault Arena → Except Fault Unit × Arena
  | .ok a' => (.ok (), a')
  | .error fault => (.error fault, a)

def Change.make (a : Arena) : Change → Except Fault Unit × Arena
  | push => (.ok (), a.push.1)
  | pop => (a.pop.1.map fun _ => (), a.pop.2)
  | set handle name text => a.changed (a.set handle name text)
  | link handle name frame target => a.changed (a.link handle name frame target)
  | unset handle name => a.changed (a.unset handle name)

/-- The frames after changes that were made one after the other. -/
def along (a : Arena) (changes : List Change) : Arena :=
  changes.foldl (fun a change => (change.make a).2) a

/-- A piece of a host's code. An error ends what is around it up to the nearest `guarded` part. -/
inductive Use where
  | change (change : Change)
  | fail (message : String)
  /-- Has a frame pushed for it, and one popped however it is left. -/
  | pushed (body : List Use)
  /-- Lets no error out. -/
  | guarded (body : List Use)

mutual

def Use.run : Use → Arena → Except Fault Unit × Arena
  | .change c, a => c.make a
  | .fail message, a => (.error (.host message), a)
  | .pushed body, a => Id.run (a.pushed fun _ a' => runAll body a')
  | .guarded body, a => (.ok (), (runAll body a).2)

def runAll : List Use → Arena → Except Fault Unit × Arena
  | [], a => (.ok (), a)
  | use :: more, a =>
    match use.run a with
    | (.ok (), a') => runAll more a'
    | (.error fault, a') => (.error fault, a')

end

mutual

/-- The changes that are made on the way, in order. -/
def Use.changes : Use → Arena → List Change
  | .change c, _ => [c]
  | .fail _, _ => []
  | .pushed body, a => .push :: (allChanges body a.push.1 ++ [.pop])
  | .guarded body, a => allChanges body a

def allChanges : List Use → Arena → List Change
  | [], _ => []
  | use :: more, a =>
    use.changes a ++
      match use.run a with
      | (.ok (), a') => allChanges more a'
      | (.error _, _) => []

end

@[simp]
theorem along_nil (a : Arena) : a.along [] = a := rfl

@[simp]
theorem along_cons (a : Arena) (change : Change) (more : List Change) :
    a.along (change :: more) = (change.make a).2.along more := rfl

@[simp]
theorem along_append (a : Arena) (front back : List Change) :
    a.along (front ++ back) = (a.along front).along back :=
  List.foldl_append

mutual

theorem Use.run_eq_along : ∀ (use : Use) (a : Arena), (use.run a).2 = a.along (use.changes a)
  | .change c, a => by simp [Use.run, Use.changes]
  | .fail message, a => by simp [Use.run, Use.changes]
  | .pushed body, a => by
      simp only [Use.run, Use.changes, along_cons, along_append, along_nil]
      rw [show (Change.push.make a).2 = a.push.1 from rfl, ← runAll_eq_along body]
      rfl
  | .guarded body, a => by
      rw [Use.run, Use.changes]
      exact runAll_eq_along body a

/-- Blocks are no more than the changes that are made in them, with a push in front and a pop
behind. -/
theorem runAll_eq_along :
    ∀ (uses : List Use) (a : Arena), (runAll uses a).2 = a.along (allChanges uses a)
  | [], a => by simp [runAll, allChanges]
  | use :: more, a => by
      have hfirst := use.run_eq_along a
      rw [runAll, allChanges, along_append, ← hfirst]
      rcases use.run a with ⟨fault | ⟨⟩, a'⟩
      · rfl
      · exact runAll_eq_along more a'

end

/-! ## What a change does to frames -/

/-- All that a change can make of the frames. -/
inductive Moves (a : Arena) : Change → Arena → Prop where
  | none (change : Change) : Moves a change a
  | push : Moves a .push a.push.1
  | pop {handle : Nat} {calls : List Nat} (inner : a.calls = handle :: calls) :
      Moves a .pop { a with calls }
  | write (change : Change) (handle : Nat) (f : Scope → Scope) :
      Moves a change (a.modify handle f)

theorem Moves.changed {a : Arena} {change : Change} {result : Except Fault Arena}
    (h : ∀ a', result = .ok a' → a.Moves change a') : a.Moves change (a.changed result).2 := by
  cases result with
  | ok a' => exact h a' rfl
  | error fault => exact .none change

theorem Change.make_moves (a : Arena) (change : Change) : a.Moves change (change.make a).2 := by
  cases change with
  | push => exact .push
  | pop =>
      obtain ⟨frames, calls⟩ := a
      cases calls with
      | nil => exact .none .pop
      | cons handle more => exact .pop rfl
  | set handle name text =>
      apply Moves.changed
      intro a' h
      unfold Arena.set at h
      split at h
      · cases h
      · cases h
        exact .write _ _ _
  | link handle name frame target =>
      apply Moves.changed
      intro a' h
      unfold Arena.link Arena.frame at h
      split at h
      · cases h
        exact .write _ _ _
      · cases h
  | unset handle name =>
      apply Moves.changed
      intro a' h
      unfold Arena.unset at h
      split at h
      · cases h
        exact .write _ _ _
      · cases h

theorem live_pop {a : Arena} {handle : Nat} {calls : List Nat} (inner : a.calls = handle :: calls) :
    a.live = ({ a with calls } : Arena).live ++ [handle] := by
  simp [live, inner]

/-- A frame keeps its number and that of its parent, whatever is written to it. -/
theorem frame_modify {a : Arena} {handle : Nat} {frame : Frame}
    (h : a.frames[handle]? = some frame) (other : Nat) (f : Scope → Scope) :
    ∃ slots, (a.modify other f).frames[handle]? = some { frame with slots } := by
  rw [modify, List.getElem?_modify, h]
  split
  · exact ⟨_, rfl⟩
  · exact ⟨_, rfl⟩

/-! ## The order of live frames -/

/-- Live frames are numbered from the global one on, each was pushed on the one before it, and the
newer ones have the higher handles. -/
structure Stacked (a : Arena) : Prop where
  frame_of_live : ∀ {i handle : Nat}, a.live[i]? = some handle →
    ∃ slots, a.frames[handle]? = some ⟨i, below i, slots⟩
  sorted : a.live.Pairwise (· < ·)

theorem Stacked.start : start.Stacked where
  frame_of_live := by
    intro i handle h
    cases i with
    | zero =>
        cases h
        exact ⟨_, rfl⟩
    | succ k => cases h
  sorted := List.pairwise_singleton _ _

namespace Stacked

variable {a a' : Arena} {change : Change} (h : a.Stacked)

include h

theorem handle_lt {handle : Nat} (live : handle ∈ a.live) : handle < a.frames.length := by
  obtain ⟨i, hi⟩ := List.mem_iff_getElem?.1 live
  obtain ⟨slots, hframe⟩ := h.frame_of_live hi
  exact (List.getElem?_eq_some_iff.1 hframe).1

theorem frames_push :
    a.push.1.frames = a.frames ++ [⟨a.depth, some a.calls.length, Table.empty⟩] := by
  obtain ⟨slots, hframe⟩ := h.frame_of_live a.live_current
  simp [Arena.push, hframe]

theorem push : a.push.1.Stacked where
  frame_of_live := by
    intro i handle hi
    rw [live_push] at hi
    rw [h.frames_push]
    rcases Nat.lt_trichotomy i a.live.length with hlt | rfl | hgt
    · rw [List.getElem?_append_left hlt] at hi
      obtain ⟨slots, hframe⟩ := h.frame_of_live hi
      refine ⟨slots, ?_⟩
      rw [← hframe]
      exact List.getElem?_append_left (List.getElem?_eq_some_iff.1 hframe).1
    -- the frame just pushed
    · rw [List.getElem?_concat_length] at hi
      cases hi
      rw [length_live, List.getElem?_concat_length]
      exact ⟨_, rfl⟩
    · have hnone : (a.live ++ [a.frames.length])[i]? = none := by
        rw [List.getElem?_eq_none_iff, List.length_append, List.length_singleton]
        exact hgt
      rw [hnone] at hi
      cases hi
  sorted := by
    rw [live_push, List.pairwise_append]
    refine ⟨h.sorted, List.pairwise_singleton _ _, ?_⟩
    intro handle live new hnew
    rw [List.mem_singleton.1 hnew]
    exact h.handle_lt live

theorem pop {handle : Nat} {calls : List Nat} (inner : a.calls = handle :: calls) :
    ({ a with calls } : Arena).Stacked := by
  have hsorted := h.sorted
  rw [live_pop inner] at hsorted
  refine ⟨?_, (List.pairwise_append.1 hsorted).1⟩
  intro i other hi
  apply h.frame_of_live
  rw [live_pop inner, List.getElem?_append_left (List.getElem?_eq_some_iff.1 hi).1]
  exact hi

theorem modify (handle : Nat) (f : Scope → Scope) : (a.modify handle f).Stacked where
  frame_of_live := by
    intro i other hi
    obtain ⟨slots, hframe⟩ := h.frame_of_live hi
    obtain ⟨slots', hframe'⟩ := frame_modify hframe handle f
    exact ⟨slots', hframe'⟩
  sorted := h.sorted

theorem moves (moves : a.Moves change a') : a'.Stacked := by
  cases moves with
  | none => exact h
  | push => exact h.push
  | pop inner => exact h.pop inner
  | write _ handle f => exact h.modify handle f

end Stacked

/-- What one change keeps of frames that are in order, any changes keep. -/
theorem Stacked.induct {I : Arena → Prop}
    (step : ∀ {a a' change}, a.Stacked → a.Moves change a' → I a → I a') (changes : List Change) :
    ∀ {a : Arena}, a.Stacked → I a → (a.along changes).Stacked ∧ I (a.along changes) := by
  induction changes with
  | nil => exact fun h hI => ⟨h, hI⟩
  | cons change more ih =>
      intro a h hI
      have hmoves := change.make_moves a
      exact ih (h.moves hmoves) (step h hmoves hI)

theorem Stacked.along {a : Arena} (h : a.Stacked) (changes : List Change) :
    (a.along changes).Stacked :=
  (h.induct (I := fun _ => True) (fun _ _ _ => trivial) changes trivial).1

theorem stacked_along (changes : List Change) : (start.along changes).Stacked :=
  Stacked.start.along changes

/-! ## Frames that stay -/

/-- The frame keeps its number and that of its parent. -/
def Numbered (handle index : Nat) (parent : Option Nat) (a : Arena) : Prop :=
  ∃ slots, a.frames[handle]? = some ⟨index, parent, slots⟩

theorem Numbered.moves {a a' : Arena} {change : Change} {handle index : Nat} {parent : Option Nat}
    (h : a.Numbered handle index parent) (moves : a.Moves change a') :
    a'.Numbered handle index parent := by
  obtain ⟨slots, hframe⟩ := h
  cases moves with
  | none => exact ⟨slots, hframe⟩
  | push =>
      refine ⟨slots, ?_⟩
      rw [← hframe]
      exact List.getElem?_append_left (List.getElem?_eq_some_iff.1 hframe).1
  | pop inner => exact ⟨slots, hframe⟩
  | write _ other f => exact frame_modify hframe other f

/-- Frames that were live at some time, and the frame on top of them: as long as that one is live,
they stand where they stood. -/
def Carries (lower : List Nat) (handle : Nat) (a : Arena) : Prop :=
  handle < a.frames.length ∧ (handle ∈ a.live → lower ++ [handle] <+: a.live)

theorem Carries.moves {a a' : Arena} {change : Change} {lower : List Nat} {handle : Nat}
    (hstacked : a.Stacked) (moves : a.Moves change a') (h : a.Carries lower handle) :
    a'.Carries lower handle := by
  obtain ⟨hlt, hlower⟩ := h
  cases moves with
  | none => exact ⟨hlt, hlower⟩
  | push =>
      constructor
      · simp only [push, List.length_append, List.length_singleton]
        omega
      -- what is pushed is new, so the frame was live before
      · rw [live_push]
        intro live
        rcases List.mem_append.1 live with hold | hnew
        · exact (hlower hold).trans (List.prefix_append _ _)
        · rw [List.mem_singleton.1 hnew] at hlt
          exact absurd hlt (Nat.lt_irrefl _)
  | pop inner =>
      have hlive := live_pop inner
      refine ⟨hlt, ?_⟩
      intro live
      have hbefore := hlower (hlive ▸ List.mem_append_left _ live)
      rw [hlive] at hbefore
      rcases List.prefix_concat_iff.1 hbefore with heq | hkept
      -- what is popped would be the frame itself, which is still there
      · have hlast := (List.append_inj' heq rfl).2
        have hnodup := hstacked.sorted
        rw [hlive, ← hlast] at hnodup
        have hself := (List.pairwise_append.1 hnodup).2.2 handle live handle List.mem_cons_self
        exact absurd hself (Nat.lt_irrefl _)
      · exact hkept
  | write _ other f =>
      refine ⟨?_, hlower⟩
      rw [modify, List.length_modify]
      exact hlt

/-- The frames up to a live one stay where they are for as long as it is live. -/
theorem live_stays {a : Arena} (h : a.Stacked) {k handle : Nat} (hk : a.live[k]? = some handle)
    (changes : List Change) (live : handle ∈ (a.along changes).live) {i : Nat} (hi : i ≤ k) :
    (a.along changes).live[i]? = a.live[i]? := by
  have hlength : k < a.live.length := (List.getElem?_eq_some_iff.1 hk).1
  have hlower : a.live.take k ++ [handle] = a.live.take (k + 1) := by
    rw [List.take_add_one, hk]
    rfl
  have hstart : a.Carries (a.live.take k) handle := by
    refine ⟨h.handle_lt (List.mem_of_getElem? hk), fun _ => ?_⟩
    rw [hlower]
    exact List.take_prefix _ _
  have hend := (h.induct Carries.moves changes hstart).2.2 live
  rw [hlower] at hend
  obtain ⟨rest, hrest⟩ := hend
  have htake : i < (a.live.take (k + 1)).length := by
    rw [List.length_take]
    omega
  rw [← hrest, List.getElem?_append_left htake, List.getElem?_take_of_lt (by omega)]

theorem numbered_stays {a : Arena} {handle index : Nat} {parent : Option Nat} (hstacked : a.Stacked)
    (h : a.Numbered handle index parent) (changes : List Change) :
    (a.along changes).Numbered handle index parent :=
  (hstacked.induct (fun _ moves h => h.moves moves) changes h).2

/-! ## Where numbers lead -/

theorem place?_natCast {size i : Nat} (h : i < size) : place? size i = some i := by
  have hneg : ¬ (i : Int) < 0 := by omega
  have hplace : 0 ≤ (i : Int) ∧ (i : Int) < size := by omega
  simp only [place?, if_neg hneg, if_pos hplace, Int.toNat_natCast]

theorem liveAt_of_live {a : Arena} {i handle : Nat} (h : a.live[i]? = some handle) :
    a.liveAt i = .ok handle := by
  have hlength : i < a.depth := by
    rw [← length_live]
    exact (List.getElem?_eq_some_iff.1 h).1
  simp only [liveAt, place?_natCast hlength, Option.bind_some, h]

theorem Stacked.parent_root {a : Arena} (h : a.Stacked) : a.parent 0 = .ok none := by
  obtain ⟨slots, hframe⟩ := h.frame_of_live (show a.live[0]? = some 0 from rfl)
  simp only [parent, frame, hframe]
  rfl

/-- The parent of a live frame is the frame that was current when it was pushed. -/
theorem parent_of_pushed {a : Arena} (h : a.Stacked) (changes : List Change)
    (live : a.push.2 ∈ (a.push.1.along changes).live) :
    (a.push.1.along changes).parent a.push.2 = .ok (some a.current) := by
  have hnew : a.push.1.live[a.depth]? = some a.push.2 := by
    rw [live_push, ← length_live, List.getElem?_concat_length]
    rfl
  have hcurrent : a.push.1.live[a.calls.length]? = some a.current := by
    have hbelow : a.calls.length < a.live.length := by simp [length_live, depth]
    rw [live_push, List.getElem?_append_left hbelow]
    exact a.live_current
  have hbelow : a.calls.length ≤ a.depth := Nat.le_succ _
  have hlive := live_stays h.push hnew changes live hbelow
  rw [hcurrent] at hlive
  have hnumbered : a.push.1.Numbered a.push.2 a.depth (some a.calls.length) :=
    ⟨_, by rw [h.frames_push]; exact List.getElem?_concat_length⟩
  obtain ⟨slots, hframe⟩ := numbered_stays h.push hnumbered changes
  simp only [parent, frame, hframe, bind, Except.bind, liveAt_of_live hlive, pure, Except.pure]

/-- Only a push makes a frame live that was not. -/
theorem Moves.eq_push {a a' : Arena} {change : Change} (moves : a.Moves change a') {handle : Nat}
    (live : handle ∈ a'.live) (dead : handle ∉ a.live) : change = .push ∧ a.push.2 = handle := by
  cases moves with
  | push =>
      rw [live_push] at live
      rcases List.mem_append.1 live with hold | hnew
      · exact absurd hold dead
      · exact ⟨rfl, (List.mem_singleton.1 hnew).symm⟩
  | pop inner =>
      rw [live_pop inner] at dead
      exact absurd (List.mem_append_left _ live) dead
  | none => exact absurd live dead
  | write => exact absurd live dead

/-- What holds after changes held before, or one of them has brought it about. -/
theorem exists_change {P : Arena → Prop} {changes : List Change} :
    ∀ {a : Arena}, P (a.along changes) → ¬ P a →
      ∃ before change after, changes = before ++ change :: after ∧
        ¬ P (a.along before) ∧ P (change.make (a.along before)).2 := by
  induction changes with
  | nil => exact fun now before => absurd now before
  | cons change more ih =>
      intro a now before
      by_cases hnext : P (change.make a).2
      · exact ⟨[], change, more, rfl, before, hnext⟩
      · obtain ⟨front, later, back, rfl, hlater⟩ := ih now hnext
        exact ⟨change :: front, later, back, rfl, hlater⟩

/-- A live frame was live from the start, or there was a moment at which it was pushed. -/
theorem exists_push {a : Arena} {changes : List Change} {handle : Nat}
    (live : handle ∈ (a.along changes).live) (dead : handle ∉ a.live) :
    ∃ before after, changes = before ++ .push :: after ∧ (a.along before).push.2 = handle := by
  obtain ⟨before, change, after, rfl, hdead, hlive⟩ :=
    exists_change (P := fun a => handle ∈ a.live) live dead
  obtain ⟨rfl, hpush⟩ := (change.make_moves _).eq_push hlive hdead
  exact ⟨before, after, rfl, hpush⟩

theorem frame_eq_ok_iff {a : Arena} {handle : Nat} {own : Frame} :
    a.frame handle = .ok own ↔ a.frames[handle]? = some own := by
  unfold frame
  cases a.frames[handle]? <;> simp

/-- A frame that is live was so before, if it was there: what is popped does not come back. -/
theorem live_before {a : Arena} (h : a.Stacked) {handle : Nat} {own : Frame}
    (hown : a.frame handle = .ok own) {changes : List Change}
    (live : handle ∈ (a.along changes).live) : handle ∈ a.live := by
  by_cases hdead : handle ∈ a.live
  · exact hdead
  · obtain ⟨before, after, rfl, hpush⟩ := exists_push live hdead
    have hnumbered : a.Numbered handle own.index own.parent := ⟨_, frame_eq_ok_iff.1 hown⟩
    obtain ⟨slots, hframe⟩ := numbered_stays h hnumbered before
    have hlt : handle < (a.along before).frames.length := (List.getElem?_eq_some_iff.1 hframe).1
    exact absurd (show (a.along before).frames.length = handle from hpush) (Nat.ne_of_gt hlt)

/-- A number that a live frame refers to, no higher than its own, names the same frame for as long
as the one that refers to it is live. -/
theorem liveAt_stays {a : Arena} (h : a.Stacked) {handle : Nat} {own : Frame}
    (hown : a.frame handle = .ok own) {number : Int} (hlow : 0 ≤ number)
    (hhigh : number ≤ own.index) (changes : List Change)
    (hstill : handle ∈ (a.along changes).live) :
    ∃ home, a.live[number.toNat]? = some home ∧ a.liveAt number = .ok home ∧
      (a.along changes).liveAt number = .ok home := by
  obtain ⟨k, hk⟩ := List.mem_iff_getElem?.1 (live_before h hown hstill)
  obtain ⟨slots, hframe⟩ := h.frame_of_live hk
  have hindex : own.index = k := by
    rw [frame_eq_ok_iff, hframe] at hown
    cases hown
    rfl
  obtain ⟨i, rfl⟩ := Int.eq_ofNat_of_zero_le hlow
  have hi : i ≤ k := by
    rw [hindex] at hhigh
    exact Int.ofNat_le.1 hhigh
  have hlength : k < a.live.length := (List.getElem?_eq_some_iff.1 hk).1
  obtain ⟨home, hhome⟩ : ∃ home, a.live[i]? = some home :=
    ⟨_, List.getElem?_eq_getElem (Nat.lt_of_le_of_lt hi hlength)⟩
  refine ⟨home, hhome, liveAt_of_live hhome, liveAt_of_live ?_⟩
  rw [live_stays h hk changes hstill hi, hhome]

end EmbeddedTcl.Arena
