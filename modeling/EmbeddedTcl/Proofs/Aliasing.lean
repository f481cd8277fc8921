import EmbeddedTcl.Proofs.Links

/-!
# Variables under aliasing

A name in a frame may be a link to any name in any frame: one that is a link itself, one of a frame
that is gone or never was, or the very name that is linked. An access follows one link, to a slot
that depends on which frames are live. Reading and writing follow the same one; so what was written
is read back, both by the name it was written to and by each name that leads to the same slot, and
all else is as before.
-/

namespace EmbeddedTcl.Arena

variable {a a' : Arena} {handle home : Nat} {name aim text : String}

/-! ## Where an access goes -/

/-- The name is a link to a number that no live frame has. -/
def Dangling (a : Arena) (handle : Nat) (name : String) : Prop :=
  ∃ number target, a.slot? handle name = some (.link number target) ∧ place? a.depth number = none

/-- The name is a link that leads to the slot of `aim` in the frame `home`. -/
def LinkedTo (a : Arena) (handle : Nat) (name : String) (home : Nat) (aim : String) : Prop :=
  ∃ number, a.slot? handle name = some (.link number aim) ∧ a.liveAt number = .ok home

/-- All that can come of looking for the slot of a name. -/
inductive Leads (a : Arena) (handle : Nat) (name : String) :
    Except Fault (Nat × String) → Prop where
  | nowhere (dangling : a.Dangling handle name) : Leads a handle name (.error .outOfRange)
  | linked {home : Nat} {aim : String} (link : a.LinkedTo handle name home aim) :
      Leads a handle name (.ok (home, aim))
  | own (plain : ∀ number target, a.slot? handle name ≠ some (.link number target)) :
      Leads a handle name (.ok (handle, name))

theorem lt_of_place? {size i : Nat} {number : Int} (h : place? size number = some i) :
    i < size := by
  simp only [place?, Option.ite_none_right_eq_some, Option.some.injEq] at h
  omega

theorem liveAt_eq_error {number : Int} (h : place? a.depth number = none) :
    a.liveAt number = .error .outOfRange := by
  simp only [liveAt, h, Option.bind_none]

theorem exists_liveAt {i : Nat} {number : Int} (h : place? a.depth number = some i) :
    ∃ home ∈ a.live, a.liveAt number = .ok home := by
  have hlive : i < a.live.length := by
    rw [length_live]
    exact lt_of_place? h
  refine ⟨a.live[i], List.getElem_mem hlive, ?_⟩
  simp only [liveAt, h, Option.bind_some, List.getElem?_eq_getElem hlive]

theorem mem_live_of_liveAt {number : Int} (h : a.liveAt number = .ok home) : home ∈ a.live := by
  cases hplace : place? a.depth number with
  | none =>
      rw [liveAt_eq_error hplace] at h
      cases h
  | some i =>
      obtain ⟨other, hmem, hother⟩ := exists_liveAt hplace
      rw [hother] at h
      cases h
      exact hmem

theorem resolve_leads (a : Arena) (handle : Nat) (name : String) :
    a.Leads handle name (a.resolve handle name) := by
  unfold resolve
  rw [← slot?]
  split
  · rename_i number target hslot
    cases hplace : place? a.depth number with
    | none =>
        rw [liveAt_eq_error hplace]
        exact .nowhere ⟨number, target, hslot, hplace⟩
    | some i =>
        obtain ⟨home, _, hhome⟩ := exists_liveAt hplace
        rw [hhome]
        exact .linked ⟨number, hslot, hhome⟩
  · rename_i hplain
    exact .own hplain

theorem not_dangling_of_linkedTo (h : a.LinkedTo handle name home aim) :
    ¬ a.Dangling handle name := by
  rintro ⟨number, target, hslot, hplace⟩
  obtain ⟨number', hslot', hhome⟩ := h
  rw [hslot] at hslot'
  cases hslot'
  rw [liveAt_eq_error hplace] at hhome
  cases hhome

theorem resolve_eq_error_iff (fault : Fault) :
    a.resolve handle name = .error fault ↔ fault = .outOfRange ∧ a.Dangling handle name := by
  have hleads := a.resolve_leads handle name
  generalize a.resolve handle name = result at hleads
  cases hleads with
  | nowhere dangling => simp [dangling, eq_comm]
  | linked link => simp [not_dangling_of_linkedTo link]
  | own plain =>
      constructor
      · rintro ⟨⟩
      · rintro ⟨_, number, target, hslot, _⟩
        exact absurd hslot (plain number target)

/-- A slot that an access goes to is one of a frame that there is. -/
theorem Stacked.home_lt (h : a.Stacked) (hlt : handle < a.frames.length)
    (hresolve : a.resolve handle name = .ok (home, aim)) : home < a.frames.length := by
  have hleads := a.resolve_leads handle name
  rw [hresolve] at hleads
  cases hleads with
  | linked link =>
      obtain ⟨number, _, hhome⟩ := link
      exact h.handle_lt (mem_live_of_liveAt hhome)
  | own => exact hlt

/-! ## Access by slots -/

theorem read?_eq (a : Arena) (handle : Nat) (name : String) :
    a.read? handle name = (a.slot? handle name).bind Slot.text? := by
  unfold read? slot?
  cases a.scope? handle with
  | none => rfl
  | some scope =>
      show scope.read? name = (scope.find? name).bind Slot.text?
      unfold Scope.read?
      cases scope.find? name with
      | none => rfl
      | some slot => cases slot <;> rfl

theorem get_eq_ok_iff (hresolve : a.resolve handle name = .ok (home, aim)) :
    a.get handle name = .ok text ↔ a.slot? home aim = some (.value text) := by
  simp only [get, hresolve, read?_eq]
  cases a.slot? home aim with
  | none => simp
  | some slot => cases slot <;> simp [Slot.text?]

theorem has_eq_true_iff :
    a.has handle name = .ok true ↔ ∃ value, a.get handle name = .ok value := by
  unfold has get
  cases a.resolve handle name with
  | error fault => simp
  | ok slot =>
      dsimp only
      cases a.read? slot.1 slot.2 <;> simp

theorem get_eq_outOfRange_iff :
    a.get handle name = .error .outOfRange ↔ a.Dangling handle name := by
  have hresolve : a.resolve handle name = .error .outOfRange ↔ _ := a.resolve_eq_error_iff .outOfRange
  unfold get
  cases hslot : a.resolve handle name with
  | error fault => simp_all
  | ok slot =>
      rw [hslot] at hresolve
      dsimp only
      cases a.read? slot.1 slot.2 <;> simp_all

theorem has_eq_outOfRange_iff :
    a.has handle name = .error .outOfRange ↔ a.Dangling handle name := by
  have hresolve : a.resolve handle name = .error .outOfRange ↔ _ := a.resolve_eq_error_iff .outOfRange
  unfold has
  cases hslot : a.resolve handle name <;> simp_all

theorem set_eq_error_iff (fault : Fault) :
    a.set handle name text = .error fault ↔ fault = .outOfRange ∧ a.Dangling handle name := by
  rw [← resolve_eq_error_iff]
  unfold set
  cases a.resolve handle name <;> simp

/-- Two arenas in which the same frames are live, and a name has the same slot. -/
theorem resolve_congr (hcalls : a'.calls = a.calls)
    (hslot : a'.slot? handle name = a.slot? handle name) :
    a'.resolve handle name = a.resolve handle name := by
  unfold resolve
  rw [← slot?, ← slot?, hslot]
  simp only [liveAt, live, depth, hcalls]

/-! ## Writing -/

/-- A value is written to the slot that the name leads to. -/
theorem Stacked.set_writes (h : a.Stacked) (hlt : handle < a.frames.length)
    (hset : a.set handle name text = .ok a') :
    ∃ home aim, home < a.frames.length ∧ a.resolve handle name = .ok (home, aim) ∧
      a.Writes home aim (some (.value text)) a' := by
  unfold set at hset
  cases hresolve : a.resolve handle name with
  | error fault =>
      rw [hresolve] at hset
      cases hset
  | ok slot =>
      obtain ⟨home, aim⟩ := slot
      rw [hresolve] at hset
      cases hset
      have hhome := h.home_lt hlt hresolve
      have hscope : a.scope? home = some _ :=
        scope?_of_frame (frame_eq_ok_iff.2 (List.getElem?_eq_getElem hhome))
      exact ⟨home, aim, hhome, rfl, modify_writes hscope fun m => Table.find?_insert _ aim m _⟩

theorem unset_eq_error_iff :
    a.unset handle name = .error (.script (.unknownVariable name)) ↔
      a.slot? handle name = none := by
  unfold unset
  rw [← slot?]
  cases a.slot? handle name <;> simp

section

variable (h : a.Writes home aim (some (.value text)) a')

include h

/-- The slot itself, read directly or by a link to it, has the new value. -/
theorem Writes.get_written {k : Nat} {m : String}
    (there : (k = home ∧ m = aim) ∨ a.LinkedTo k m home aim) : a'.get k m = .ok text := by
  have hhome : a'.slot? home aim = some (.value text) := by
    rw [h.slot_eq, if_pos ⟨rfl, rfl⟩]
  suffices hresolve : a'.resolve k m = .ok (home, aim) by
    rwa [get_eq_ok_iff hresolve]
  by_cases hself : k = home ∧ m = aim
  -- whatever the slot was before, it is no link any more
  · obtain ⟨rfl, rfl⟩ := hself
    have hleads := a'.resolve_leads k m
    generalize a'.resolve k m = result at hleads ⊢
    cases hleads with
    | nowhere dangling =>
        obtain ⟨_, _, hlink, _⟩ := dangling
        cases hhome.symm.trans hlink
    | linked link =>
        obtain ⟨_, hlink, _⟩ := link
        cases hhome.symm.trans hlink
    | own => rfl
  · obtain ⟨number, hlink, hnumber⟩ := there.resolve_left hself
    have hslot : a'.slot? k m = a.slot? k m := by rw [h.slot_eq, if_neg hself]
    rw [resolve_congr h.calls hslot]
    exact resolve_link hlink hnumber

theorem Writes.get_other {k : Nat} {m : String} (hself : ¬ (k = home ∧ m = aim))
    (hlink : ¬ a.LinkedTo k m home aim) : a'.get k m = a.get k m := by
  have hslot : a'.slot? k m = a.slot? k m := by rw [h.slot_eq, if_neg hself]
  rw [get, get, resolve_congr h.calls hslot]
  have hleads := a.resolve_leads k m
  generalize a.resolve k m = result at hleads ⊢
  cases hleads with
  | nowhere => rfl
  | @linked other target link =>
      have hother : ¬ (other = home ∧ target = aim) := by
        rintro ⟨rfl, rfl⟩
        exact hlink link
      simp only [read?_eq, h.slot_eq, if_neg hother]
  | own => simp only [read?_eq, h.slot_eq, if_neg hself]

end

/-- **What is written is read back, and nothing else moves**, whatever the links are like. After any
use of frames, live or gone: a name is set exactly if it has a value to read; reading, asking and
writing fail alike, if the name is a link to no live frame, and then nothing is changed. A write
changes one slot, the one that the name leads to, and then just this slot and the links to it read
as the new value; every other name reads as before, be it a value or an error. Removing a name
changes its own slot only. -/
theorem writes_are_read_back (uses : List Use) (handle : Nat) (name text : String)
    (exists_frame : handle < (runAll uses start).2.frames.length) :
    let a := (runAll uses start).2
    (a.has handle name = .ok true ↔ ∃ value, a.get handle name = .ok value) ∧
    ((a.get handle name = .error .outOfRange ↔ a.Dangling handle name) ∧
      (a.has handle name = .error .outOfRange ↔ a.Dangling handle name) ∧
      (a.set handle name text = .error .outOfRange ↔ a.Dangling handle name)) ∧
    (∀ fault, a.set handle name text = .error fault →
      fault = .outOfRange ∧ ((Change.set handle name text).make a).2 = a) ∧
    (∀ a', a.set handle name text = .ok a' → ∃ home aim, home < a.frames.length ∧
      a.resolve handle name = .ok (home, aim) ∧ a.Writes home aim (some (.value text)) a' ∧
      a'.get handle name = .ok text ∧
      ∀ k m,
        ((k = home ∧ m = aim) ∨ a.LinkedTo k m home aim → a'.get k m = .ok text) ∧
        (¬ (k = home ∧ m = aim) → ¬ a.LinkedTo k m home aim → a'.get k m = a.get k m)) ∧
    (∀ a', a.unset handle name = .ok a' → a.Writes handle name none a') ∧
    (a.unset handle name = .error (.script (.unknownVariable name)) ↔
      a.slot? handle name = none) := by
  intro a
  have hstacked : a.Stacked := by
    show (runAll uses start).2.Stacked
    rw [runAll_eq_along]
    exact stacked_along _
  have hdangling : a.set handle name text = .error .outOfRange ↔ a.Dangling handle name := by
    simp [set_eq_error_iff]
  refine ⟨has_eq_true_iff, ⟨get_eq_outOfRange_iff, has_eq_outOfRange_iff, hdangling⟩, ?_, ?_,
    fun _ => unset_writes, unset_eq_error_iff⟩
  · intro fault hset
    refine ⟨((set_eq_error_iff fault).1 hset).1, ?_⟩
    simp only [Change.make, hset, changed]
  · intro a' hset
    obtain ⟨home, aim, hhome, hresolve, hwrites⟩ := hstacked.set_writes exists_frame hset
    have hthere : (handle = home ∧ name = aim) ∨ a.LinkedTo handle name home aim := by
      have hleads := a.resolve_leads handle name
      rw [hresolve] at hleads
      cases hleads with
      | linked link => exact .inr link
      | own => exact .inl ⟨rfl, rfl⟩
    refine ⟨home, aim, hhome, hresolve, hwrites, hwrites.get_written hthere, ?_⟩
    intro k m
    exact ⟨hwrites.get_written, hwrites.get_other⟩

/-- A name that is linked to itself, from below and from a frame that is gone. The write through the
latter ends the circle; a link to a link still has no value. -/
theorem writes_are_read_back_circle :
    let uses : List Use :=
      [.change .push, .change (.link 1 "x" (-1) none), .change (.link 1 "y" (-1) (some "x")),
        .change (.link 0 "z" 1 (some "y")),
        .guarded [.pushed [.change (.link 2 "w" 1 (some "x")), .fail "left"]]]
    let a := (runAll uses start).2
    2 < a.frames.length ∧ a.depth = 2 ∧ a.has 1 "x" = .ok false ∧
    ∃ a', a.set 2 "w" "v" = .ok a' ∧ a'.get 2 "w" = .ok "v" ∧ a'.get 1 "x" = .ok "v" ∧
      a'.get 1 "y" = .ok "v" ∧ a'.get 0 "z" = a.get 0 "z" := by
  intro uses a
  have hframe : 2 < a.frames.length := by decide
  obtain ⟨a', hset⟩ : ∃ a', a.set 2 "w" "v" = .ok a' := ⟨_, rfl⟩
  have hresolve : a.resolve 2 "w" = .ok (1, "x") := rfl
  obtain ⟨_, _, _, hlaws, _⟩ := writes_are_read_back uses 2 "w" "v" hframe
  obtain ⟨home, aim, _, hhome, _, hown, hget⟩ := hlaws a' hset
  cases hresolve.symm.trans hhome
  refine ⟨hframe, rfl, rfl, a', hset, hown, ?_, ?_, ?_⟩
  · exact (hget 1 "x").1 (.inl ⟨rfl, rfl⟩)
  · exact (hget 1 "y").1 (.inr ⟨-1, rfl, rfl⟩)
  · refine (hget 0 "z").2 (by decide) ?_
    rintro ⟨number, hlink, _⟩
    have hslot : a.slot? 0 "z" = some (.link 1 "y") := rfl
    exact absurd (hslot.symm.trans hlink) (by simp)

end EmbeddedTcl.Arena
