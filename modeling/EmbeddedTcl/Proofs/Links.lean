import EmbeddedTcl.Proofs.Handles

/-!
# Links by number

A link is a slot that holds a number and a name. What a host does to frames fills one slot at most,
and a slot becomes a link by a link alone. So every link that there is goes back to the moment at
which it was made; and from then on its number means the same frame, since the frame that holds it
is live.
-/

namespace EmbeddedTcl.Arena

variable {a a' : Arena} {change : Change} {changes : List Change} {own : Frame} {handle home : Nat}
  {name aim : String} {number : Int}

/-! ## Slots -/

/-- The slot of a name in a frame itself. -/
def slot? (a : Arena) (handle : Nat) (name : String) : Option Slot :=
  (a.scope? handle).bind (·.find? name)

theorem scope?_modify (a : Arena) (handle other : Nat) (f : Scope → Scope) :
    (a.modify handle f).scope? other =
      if handle = other then (a.scope? other).map f else a.scope? other := by
  rw [scope?, modify, List.getElem?_modify, scope?]
  cases a.frames[other]? with
  | none => simp
  | some frame => by_cases h : handle = other <;> simp [h]

theorem scope?_of_frame (h : a.frame handle = .ok own) :
    a.scope? handle = some own.slots := by
  rw [scope?, frame_eq_ok_iff.1 h]
  rfl

theorem modify_absent (h : a.scope? handle = none) (f : Scope → Scope) :
    a.modify handle f = a := by
  have hlength : a.frames.length ≤ handle :=
    List.getElem?_eq_none_iff.1 (Option.map_eq_none_iff.1 h)
  rw [modify, List.modify_eq_self hlength]

theorem slot?_start (k : Nat) (m : String) : start.slot? k m = none := by
  cases k <;> rfl

theorem slot?_push (a : Arena) (k : Nat) (m : String) : a.push.1.slot? k m = a.slot? k m := by
  rw [slot?, slot?, scope?, scope?, push]
  rcases Nat.lt_trichotomy k a.frames.length with hlt | rfl | hgt
  · rw [List.getElem?_append_left hlt]
  · rw [List.getElem?_concat_length, List.getElem?_eq_none (Nat.le_refl _)]
    rfl
  · rw [List.getElem?_eq_none (Nat.le_of_lt hgt), List.getElem?_eq_none]
    rw [List.length_append, List.length_singleton]
    exact hgt

/-- One slot of one frame is changed, and nothing else. -/
structure Writes (a : Arena) (handle : Nat) (name : String) (slot : Option Slot) (a' : Arena) :
    Prop where
  calls : a'.calls = a.calls
  numbers : a'.frames.map (fun frame => (frame.index, frame.parent)) =
    a.frames.map fun frame => (frame.index, frame.parent)
  slot_eq : ∀ k m, a'.slot? k m = if k = handle ∧ m = name then slot else a.slot? k m

/-- A change of one name in the scope of a frame. -/
theorem modify_writes {scope : Scope} (hscope : a.scope? handle = some scope) {f : Scope → Scope} {slot : Option Slot}
    (hf : ∀ m, (f scope).find? m = if m = name then slot else scope.find? m) :
    a.Writes handle name slot (a.modify handle f) where
  calls := rfl
  numbers := by
    apply List.ext_getElem?
    intro i
    rw [modify, List.getElem?_map, List.getElem?_modify, List.getElem?_map]
    cases a.frames[i]? with
    | none => rfl
    | some frame => by_cases h : handle = i <;> simp [h]
  slot_eq := by
    intro k m
    rw [slot?, scope?_modify]
    by_cases hk : handle = k
    · subst hk
      rw [if_pos rfl, slot?, hscope]
      simp [hf]
    · have hne : ¬ (k = handle ∧ m = name) := fun h => hk h.1.symm
      rw [if_neg hk, if_neg hne]
      rfl

theorem unset_writes (hunset : a.unset handle name = .ok a') : a.Writes handle name none a' := by
  unfold unset at hunset
  cases hscope : a.scope? handle with
  | none =>
      rw [hscope] at hunset
      cases hunset
  | some scope =>
      rw [hscope] at hunset
      split at hunset
      · cases hunset
        exact modify_writes hscope fun m => Table.find?_erase scope name m
      · cases hunset

/-! ## Links -/

theorem find?_scopeLink (scope : Scope) (self number : Int) (name m : String)
    (target : Option String) :
    (scope.link self name number target).find? m =
      if m = name then
        if number = self ∧ Scope.linkTarget name target = name then scope.find? name
        else some (.link number (Scope.linkTarget name target))
      else scope.find? m := by
  unfold Scope.link
  by_cases hself : number = self ∧ Scope.linkTarget name target = name
  · rw [if_pos hself, if_pos hself]
    split
    · rename_i hm
      rw [hm]
    · rfl
  · rw [if_neg hself, if_neg hself, Table.find?_insert]

/-- A frame that is there takes every link, and the link is what it is asked to be. Only a name that
would be linked to itself stays what it was. -/
theorem link_writes (hown : a.frame handle = .ok own) (name : String) (number : Int)
    (target : Option String) :
    ∃ a', a.link handle name number target = .ok a' ∧
      a.Writes handle name
        (if number = own.index ∧ Scope.linkTarget name target = name then a.slot? handle name
          else some (.link number (Scope.linkTarget name target))) a' := by
  have hscope := scope?_of_frame hown
  refine ⟨a.modify handle (·.link own.index name number target), ?_, ?_⟩
  · rw [link, hown]
    rfl
  · refine modify_writes hscope fun m => ?_
    rw [find?_scopeLink, slot?, hscope]
    rfl

/-- The slot that a change is about. A value goes to the one that its name leads to. -/
def Change.about? (a : Arena) : Change → Option (Nat × String)
  | push | pop => none
  | set handle name _ => (a.resolve handle name).toOption
  | link handle name _ _ => some (handle, name)
  | unset handle name => some (handle, name)

/-- All that a change makes of slots: it leaves them, or fills the one that it is about. A link comes
of a link alone. -/
theorem Change.make_slots (a : Arena) (change : Change) :
    (∀ k m, (change.make a).2.slot? k m = a.slot? k m) ∨
    ∃ handle name slot, change.about? a = some (handle, name) ∧
      a.Writes handle name slot (change.make a).2 ∧
      ∀ number aim, slot = some (.link number aim) → a.slot? handle name = slot ∨
        ∃ target own, change = .link handle name number target ∧ a.frame handle = .ok own ∧
          Scope.linkTarget name target = aim := by
  cases change with
  | push => exact .inl a.slot?_push
  | pop =>
      obtain ⟨frames, calls⟩ := a
      cases calls <;> exact .inl fun _ _ => rfl
  | set handle name text =>
      rw [Change.make, Arena.set, about?]
      cases a.resolve handle name with
      | error fault => exact .inl fun _ _ => rfl
      | ok place =>
          cases hscope : a.scope? place.1 with
          | none =>
              dsimp only
              rw [modify_absent hscope]
              exact .inl fun _ _ => rfl
          | some scope =>
              have hwrites : a.Writes place.1 place.2 (some (.value text))
                  (a.modify place.1 (·.assign place.2 text)) :=
                modify_writes hscope fun m => Table.find?_insert scope place.2 m _
              refine .inr ⟨place.1, place.2, _, rfl, hwrites, ?_⟩
              intro number aim hslot
              cases hslot
  | link handle name number target =>
      rw [Change.make]
      cases hown : a.frame handle with
      | error fault =>
          rw [Arena.link, hown]
          exact .inl fun _ _ => rfl
      | ok own =>
          obtain ⟨a', hlink, hwrites⟩ := link_writes hown name number target
          rw [hlink]
          refine .inr ⟨handle, name, _, rfl, hwrites, ?_⟩
          intro number' aim hslot
          split at hslot
          · rename_i hself
            exact .inl (if_pos hself).symm
          · cases hslot
            exact .inr ⟨target, own, rfl, hown, rfl⟩
  | unset handle name =>
      rw [Change.make]
      cases hunset : a.unset handle name with
      | error fault => exact .inl fun _ _ => rfl
      | ok a' =>
          refine .inr ⟨handle, name, none, rfl, unset_writes hunset, ?_⟩
          intro number aim hslot
          cases hslot

theorem Change.slot?_make (h : change.about? a ≠ some (handle, name)) :
    (change.make a).2.slot? handle name = a.slot? handle name := by
  obtain hleft | ⟨k, m, slot, habout, hwrites, _⟩ := change.make_slots a
  · exact hleft handle name
  · have hother : ¬ (handle = k ∧ name = m) := by
      rintro ⟨rfl, rfl⟩
      exact h habout
    rw [hwrites.slot_eq, if_neg hother]

/-- None of the changes is about the slot. -/
def Spares (handle : Nat) (name : String) : Arena → List Change → Prop
  | _, [] => True
  | a, change :: more =>
    change.about? a ≠ some (handle, name) ∧ Spares handle name (change.make a).2 more

theorem slot?_along : ∀ {a : Arena}, Spares handle name a changes →
    (a.along changes).slot? handle name = a.slot? handle name := by
  induction changes with
  | nil => exact fun _ => rfl
  | cons change more ih =>
      rintro a ⟨hfirst, hmore⟩
      rw [along_cons, ih hmore, Change.slot?_make hfirst]

/-- Nothing but a link makes a slot a link. -/
theorem Change.eq_link (now : (change.make a).2.slot? handle name = some (.link number aim))
    (before : a.slot? handle name ≠ some (.link number aim)) :
    ∃ target own, change = .link handle name number target ∧ a.frame handle = .ok own ∧
      Scope.linkTarget name target = aim := by
  obtain hleft | ⟨k, m, slot, _, hwrites, hlink⟩ := change.make_slots a
  · exact absurd (hleft handle name ▸ now) before
  · rw [hwrites.slot_eq] at now
    split at now
    · rename_i hself
      obtain ⟨rfl, rfl⟩ := hself
      exact (hlink number aim now).resolve_left fun hold => before (hold.trans now)
    · exact absurd now before

/-- Where there is a link now, there was one before, or this very link was made. -/
theorem exists_link (now : (a.along changes).slot? handle name = some (.link number aim))
    (before : a.slot? handle name ≠ some (.link number aim)) :
    ∃ front back target own, changes = front ++ .link handle name number target :: back ∧
      (a.along front).frame handle = .ok own ∧ Scope.linkTarget name target = aim := by
  obtain ⟨front, change, back, rfl, hbefore, hnow⟩ :=
    exists_change (P := fun a => a.slot? handle name = some (.link number aim)) now before
  obtain ⟨target, own, rfl, hlinked⟩ := change.eq_link hnow hbefore
  exact ⟨front, back, target, own, rfl, hlinked⟩

theorem resolve_link (hslot : a.slot? handle name = some (.link number aim))
    (hhome : a.liveAt number = .ok home) : a.resolve handle name = .ok (home, aim) := by
  unfold resolve
  rw [← slot?, hslot]
  simp only [hhome]

/-- **References by number stay right.** A host may do anything with frames, in blocks that are left
in any way. Then at every moment the global frame is live and first, and cannot be popped; the live
frames are numbered in order, each has the number of the one before it for its parent, and that is
the very frame that was current when it was pushed. A name is a link only if it was made one, with
the number and the name that it has; and a link that is made is stored in the one slot it is for,
unless it is of a name to itself. If its number is no higher than that of its frame, then as long as
the frame is live it leads to the very frame that had this number when it was made; and the link is
there until something is done to its slot. -/
theorem frame_numbers_stay_right (uses : List Use) :
    let changes := allChanges uses start
    (runAll uses start).2 = start.along changes ∧
    ∀ done rest, changes = done ++ rest →
      let a := start.along done
      a.live.head? = some 0 ∧
      (a.depth = 1 → a.pop = (.error .globalScopePopped, a)) ∧
      (∀ i handle, a.live[i]? = some handle →
        ∃ own, a.frame handle = .ok own ∧ own.index = i ∧ own.parent = below i) ∧
      a.parent 0 = .ok none ∧
      (∀ handle ∈ a.live, handle ≠ 0 → ∃ before after, done = before ++ .push :: after ∧
        (start.along before).push.2 = handle ∧
        a.parent handle = .ok (some (start.along before).current)) ∧
      (∀ handle name number aim, a.slot? handle name = some (.link number aim) →
        ∃ before after target own, done = before ++ .link handle name number target :: after ∧
          (start.along before).frame handle = .ok own ∧ Scope.linkTarget name target = aim) ∧
      ∀ (before after : List Change) (handle : Nat) (name : String) (number : Int)
        (target : Option String) (own : Frame),
        done = before ++ .link handle name number target :: after →
        (start.along before).frame handle = .ok own →
        let aim := Scope.linkTarget name target
        let linked := start.along (before ++ [.link handle name number target])
        (start.along before).link handle name number target = .ok linked ∧
        (start.along before).Writes handle name
          (if number = own.index ∧ aim = name then (start.along before).slot? handle name
            else some (.link number aim)) linked ∧
        (0 ≤ number → number ≤ own.index → handle ∈ a.live →
          ∃ home, (start.along before).live[number.toNat]? = some home ∧
            (start.along before).liveAt number = .ok home ∧
            a.liveAt number = .ok home ∧
            (∀ aim, a.slot? handle name = some (.link number aim) →
              a.resolve handle name = .ok (home, aim)) ∧
            (¬ (number = own.index ∧ aim = name) → Spares handle name linked after →
              a.slot? handle name = some (.link number aim) ∧
                a.resolve handle name = .ok (home, aim))) := by
  intro changes
  refine ⟨runAll_eq_along uses start, ?_⟩
  intro done rest _ a
  have hstacked : a.Stacked := stacked_along done
  refine ⟨rfl, ?_, ?_, hstacked.parent_root, ?_, ?_, ?_⟩
  · intro hdepth
    have hcalls : a.calls = [] := List.length_eq_zero_iff.1 (Nat.succ.inj hdepth)
    rw [pop, hcalls]
  · intro i handle hi
    obtain ⟨slots, hframe⟩ := hstacked.frame_of_live hi
    have hown : a.frame handle = .ok ⟨i, below i, slots⟩ := by rw [frame, hframe]
    exact ⟨_, hown, rfl, rfl⟩
  · intro handle hlive hroot
    have hdead : handle ∉ start.live := fun h => hroot (List.mem_singleton.1 h)
    obtain ⟨before, after, hdone, rfl⟩ := exists_push hlive hdead
    have ha : a = (start.along before).push.1.along after := by
      simp only [a, hdone, along_append, along_cons]
      rfl
    refine ⟨before, after, hdone, rfl, ?_⟩
    rw [ha] at hlive ⊢
    exact parent_of_pushed (stacked_along before) after hlive
  · intro handle name number aim hslot
    apply exists_link hslot
    rw [slot?_start]
    exact (Option.some_ne_none _).symm
  · intro before after handle name number target own hdone hown aim linked
    let link : Change := .link handle name number target
    obtain ⟨a', hlink, hwrites⟩ := link_writes hown name number target
    have hlinked : linked = a' := by
      simp only [linked, along_append, along_cons, along_nil, Change.make, hlink, changed]
    have hafter : a = linked.along after := by
      simp only [a, hdone, linked, along_append, along_cons, along_nil]
    have ha : a = (start.along before).along (link :: after) := by
      simp only [a, hdone, along_append, link]
    refine ⟨hlinked ▸ hlink, hlinked ▸ hwrites, ?_⟩
    intro hlow hhigh hstill
    rw [ha] at hstill
    obtain ⟨home, hhome, hthen, hnow⟩ :=
      liveAt_stays (stacked_along before) hown hlow hhigh (link :: after) hstill
    rw [← ha] at hnow
    refine ⟨home, hhome, hthen, hnow, fun aim hslot => resolve_link hslot hnow, ?_⟩
    intro hself hspares
    have hslot : a.slot? handle name = some (.link number aim) := by
      rw [hafter, slot?_along hspares, hlinked, hwrites.slot_eq, if_pos ⟨rfl, rfl⟩, if_neg hself]
    exact ⟨hslot, resolve_link hslot hnow⟩

/-- The number 1 was that of a frame that is gone when the link to it is made. A block that fails,
new frames and a value that goes through the link leave it right. -/
theorem frame_numbers_stay_right_reused :
    let uses : List Use :=
      [.change .push, .change .pop, .change .push, .change .push,
        .change (.link 3 "n" 1 (some "v")),
        .guarded [.pushed [.change .push, .change (.set 5 "n" "x"), .fail "left"]],
        .change .pop, .change .push, .change (.set 3 "n" "y")]
    let a := (runAll uses start).2
    a.live = [0, 2, 3, 6] ∧ a.slot? 3 "n" = some (.link 1 "v") ∧
      a.resolve 3 "n" = .ok (2, "v") ∧ a.get 2 "v" = .ok "y" := by
  intro uses a
  let before : List Change := [.push, .pop, .push, .push]
  let after : List Change := [.push, .push, .set 5 "n" "x", .pop, .pop, .push, .set 3 "n" "y"]
  let done := before ++ .link 3 "n" 1 (some "v") :: after
  have hchanges : allChanges uses start = done ++ [] := rfl
  obtain ⟨hrun, hmoments⟩ := frame_numbers_stay_right uses
  obtain ⟨_, _, _, _, _, _, hlinks⟩ := hmoments done [] hchanges
  obtain ⟨_, _, hstays⟩ := hlinks before after 3 "n" 1 (some "v") ⟨2, some 1, Table.empty⟩ rfl rfl
  have hlive : 3 ∈ (start.along done).live := by decide
  obtain ⟨home, hhome, _, _, _, hstored⟩ := hstays (by decide) (by decide) hlive
  cases hhome
  have hspares : Spares 3 "n" (start.along (before ++ [.link 3 "n" 1 (some "v")])) after :=
    ⟨nofun, nofun, by decide, nofun, nofun, nofun, by decide, trivial⟩
  obtain ⟨hslot, hresolve⟩ := hstored (by decide) hspares
  have ha : a = start.along done := hrun
  rw [ha]
  exact ⟨rfl, hslot, hresolve, rfl⟩

end EmbeddedTcl.Arena
