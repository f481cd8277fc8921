import EmbeddedTcl.Proofs.ScopeLaws

/-!
# Two scopes

Scopes may link any name to any name of any frame. Scripts can make one kind of link only: a name
in the scope of a call, to the global variable of the same name. A stack of scopes with no other
links is `Scoped`, and is then no more than what `Variables` describes: global variables, and for
each call the names that it has linked and the variables of its own.
-/

namespace EmbeddedTcl

/-! ## Variables as a script has them -/

/-- The variables of one call. -/
@[ext]
structure CallVariables where
  linked : String → Bool
  locals : String → Option String

/-- All variables. `calls k` belongs to the call at level `k + 1`. -/
@[ext]
structure Variables where
  globals : String → Option String
  calls : Nat → CallVariables

namespace Variables

/-- Whether an access from a level goes to the global variable. -/
def isGlobal (v : Variables) (level : Nat) (name : String) : Bool :=
  match level with
  | 0 => true
  | k + 1 => (v.calls k).linked name

def get (v : Variables) (level : Nat) (name : String) : Option String :=
  match level with
  | 0 => v.globals name
  | k + 1 => if (v.calls k).linked name then v.globals name else (v.calls k).locals name

def setGlobal (v : Variables) (name text : String) : Variables :=
  { v with globals := fun n => if n = name then some text else v.globals n }

def setLocal (v : Variables) (k : Nat) (name text : String) : Variables :=
  { v with calls := fun i =>
      { v.calls i with locals := fun n =>
          if i = k ∧ n = name then some text else (v.calls i).locals n } }

def set (v : Variables) (level : Nat) (name text : String) : Variables :=
  match level with
  | 0 => v.setGlobal name text
  | k + 1 => if (v.calls k).linked name then v.setGlobal name text else v.setLocal k name text

/-- Links a name. A variable of that name that the call may have had is gone. -/
def link (v : Variables) (level : Nat) (name : String) : Variables :=
  match level with
  | 0 => v
  | k + 1 =>
    { v with calls := fun i =>
        { linked := fun n => if i = k ∧ n = name then true else (v.calls i).linked n
          locals := fun n => if i = k ∧ n = name then none else (v.calls i).locals n } }

end Variables

def Slot.text? : Slot → Option String
  | value text => some text
  | link _ _ => none

def Slot.isLink : Slot → Bool
  | value _ => false
  | link _ _ => true

namespace ScopeStack

/-- The variables that a stack of scopes holds. -/
def view (s : ScopeStack) : Variables where
  globals name := (s.slot? 0 name).bind Slot.text?
  calls k :=
    { linked := fun name => (s.slot? (k + 1) name).any Slot.isLink
      locals := fun name => (s.slot? (k + 1) name).bind Slot.text? }

/-! ## Links that scripts make -/

/-- The global scope holds values only, and a link leads to the global variable of its own name. -/
structure Scoped (s : ScopeStack) : Prop where
  root : s.LinkFree 0
  links : ∀ {level name frame target}, s.slot? level name = some (.link frame target) →
    frame = 0 ∧ target = name

theorem Scoped.empty : Scoped {} where
  root := by
    intro name frame target h
    rw [slot?_zero] at h
    cases h
  links := by
    intro level name frame target h
    cases level <;> cases h

/-- What may become of links: they stay as long as their level does, and new ones lead from a call
to the global variable of the same name. -/
structure LinksKept (s s' : ScopeStack) : Prop where
  stay : ∀ {level name frame target}, s.slot? level name = some (.link frame target) →
    level < s'.depth → s'.slot? level name = some (.link frame target)
  come : ∀ {level name frame target}, s'.slot? level name = some (.link frame target) →
    s.slot? level name = some (.link frame target) ∨ level ≠ 0 ∧ frame = 0 ∧ target = name

theorem LinksKept.refl (s : ScopeStack) : LinksKept s s where
  stay h _ := h
  come h := .inl h

theorem LinksKept.scoped {s s' : ScopeStack} (h : LinksKept s s') (hs : s.Scoped) :
    s'.Scoped where
  root := by
    intro name frame target hslot
    rcases h.come hslot with hold | hnew
    · exact hs.root name frame target hold
    · exact hnew.1 rfl
  links := by
    intro level name frame target hslot
    rcases h.come hslot with hold | hnew
    · exact hs.links hold
    · exact hnew.2

theorem Scoped.linked_iff {s : ScopeStack} (h : s.Scoped) {k : Nat} {name : String} :
    (s.view.calls k).linked name = true ↔ s.slot? (k + 1) name = some (.link 0 name) := by
  simp only [view]
  cases hslot : s.slot? (k + 1) name with
  | none => simp
  | some slot =>
      cases slot with
      | value text => simp [Slot.isLink]
      | link frame target =>
          obtain ⟨rfl, rfl⟩ := h.links hslot
          simp [Slot.isLink]

theorem linked_of_slot {s : ScopeStack} {k : Nat} {name target : String} {frame : Int}
    (h : s.slot? (k + 1) name = some (.link frame target)) :
    (s.view.calls k).linked name = true := by
  simp [view, h, Slot.isLink]

/-- The level of the scope that a variable is kept in. -/
def home (s : ScopeStack) (level : Nat) (name : String) : Nat :=
  if s.view.isGlobal level name then 0 else level

theorem home_linked {s : ScopeStack} {k : Nat} {name : String}
    (h : (s.view.calls k).linked name = true) : s.home (k + 1) name = 0 :=
  if_pos h

theorem home_local {s : ScopeStack} {k : Nat} {name : String}
    (h : ¬ (s.view.calls k).linked name = true) : s.home (k + 1) name = k + 1 :=
  if_neg h

theorem home_lt_depth {s : ScopeStack} {level : Nat} (live : level < s.depth) (name : String) :
    s.home level name < s.depth := by
  unfold home
  split
  · exact Nat.succ_pos _
  · exact live

/-- **One hop is enough.** Where a variable is kept there is a value or nothing. -/
theorem Scoped.home_not_link {s : ScopeStack} (h : s.Scoped) (level : Nat) (name : String) :
    ∀ frame target, s.slot? (s.home level name) name ≠ some (.link frame target) := by
  intro frame target hslot
  unfold home at hslot
  split at hslot
  · exact h.root name frame target hslot
  · rename_i hlocal
    cases level with
    | zero => exact hlocal rfl
    | succ k => exact hlocal (linked_of_slot hslot)

theorem Scoped.resolve_eq {s : ScopeStack} (h : s.Scoped) (level : Nat) (name : String) :
    s.resolve level name = .ok (s.home level name, name) := by
  cases level with
  | zero => exact resolve_own (h.root name)
  | succ k =>
      by_cases hlinked : (s.view.calls k).linked name = true
      · have hplace : place? s.depth 0 = some 0 := by simp [place?, depth]
        rw [home_linked hlinked]
        exact resolve_link (h.linked_iff.1 hlinked) hplace
      · have hown := h.home_not_link (k + 1) name
        rw [home_local hlinked] at hown ⊢
        exact resolve_own hown

/-! ## Access -/

theorem read?_eq (s : ScopeStack) (level : Nat) (name : String) :
    s.read? level name = (s.slot? level name).bind Slot.text? := by
  unfold read? slot?
  cases s.scope? level with
  | none => rfl
  | some scope =>
      show scope.read? name = (scope.find? name).bind Slot.text?
      unfold Scope.read?
      split
      · rename_i text hfind
        rw [hfind]
        rfl
      · rename_i hfind
        cases hslot : scope.find? name with
        | none => rfl
        | some slot =>
            cases slot with
            | value text => exact absurd hslot (hfind text)
            | link frame target => rfl

theorem read?_home (s : ScopeStack) (level : Nat) (name : String) :
    s.read? (s.home level name) name = s.view.get level name := by
  rw [read?_eq]
  cases level with
  | zero => rfl
  | succ k =>
      rw [Variables.get]
      split
      · rename_i hlinked
        rw [home_linked hlinked]
        rfl
      · rename_i hlocal
        rw [home_local hlocal]
        rfl

theorem Scoped.get_eq {s : ScopeStack} (h : s.Scoped) (level : Nat) (name : String) :
    s.get level name = match s.view.get level name with
      | some text => .ok text
      | none => .error (.script (.unknownVariable name)) := by
  cases hread : s.view.get level name with
  | none => simp only [get, h.resolve_eq, read?_home, hread]
  | some text => simp only [get, h.resolve_eq, read?_home, hread]

theorem Scoped.get_known {s : ScopeStack} (h : s.Scoped) (level : Nat) (name : String) :
    (∃ text, s.get level name = .ok text) ∨
      s.get level name = .error (.script (.unknownVariable name)) := by
  rw [h.get_eq]
  cases s.view.get level name with
  | none => exact .inr rfl
  | some text => exact .inl ⟨text, rfl⟩

theorem Scoped.has_eq {s : ScopeStack} (h : s.Scoped) (level : Nat) (name : String) :
    s.has level name = .ok (s.view.get level name).isSome := by
  unfold has
  simp only [h.resolve_eq, read?_home]

theorem Scoped.set_eq {s : ScopeStack} (h : s.Scoped) (level : Nat) (name text : String) :
    s.set level name text = .ok (s.modify (s.home level name) (·.assign name text)) := by
  rw [set, h.resolve_eq]

/-! ## Changes -/

theorem view_eq {s : ScopeStack} {v : Variables}
    (hglobals : ∀ n, (s.slot? 0 n).bind Slot.text? = v.globals n)
    (hlinked : ∀ k n, (s.slot? (k + 1) n).any Slot.isLink = (v.calls k).linked n)
    (hlocals : ∀ k n, (s.slot? (k + 1) n).bind Slot.text? = (v.calls k).locals n) :
    s.view = v :=
  Variables.ext (funext hglobals) <| funext fun k =>
    CallVariables.ext (funext (hlinked k)) (funext (hlocals k))

theorem view_assign_global (s : ScopeStack) (name text : String) :
    (s.modify 0 (·.assign name text)).view = s.view.setGlobal name text := by
  have hslot := s.slot?_assign (Nat.succ_pos _) name text
  refine view_eq ?_ ?_ ?_
  · intro n
    rw [hslot]
    by_cases hn : n = name <;> simp [hn, Variables.setGlobal, view, Slot.text?]
  · intro k n
    rw [hslot, if_neg (by simp)]
    rfl
  · intro k n
    rw [hslot, if_neg (by simp)]
    rfl

theorem view_assign_local {s : ScopeStack} {k : Nat} (live : k + 1 < s.depth)
    {name : String} (hlocal : ¬ (s.view.calls k).linked name = true) (text : String) :
    (s.modify (k + 1) (·.assign name text)).view = s.view.setLocal k name text := by
  have hslot := s.slot?_assign live name text
  refine view_eq ?_ ?_ ?_
  · intro n
    rw [hslot, if_neg (by simp)]
    rfl
  · intro i n
    rw [hslot]
    by_cases hn : i = k ∧ n = name
    · obtain ⟨rfl, rfl⟩ := hn
      simpa [Variables.setLocal, Slot.isLink] using hlocal
    · rw [if_neg (by simpa using hn)]
      rfl
  · intro i n
    rw [hslot]
    by_cases hn : i = k ∧ n = name <;> simp [hn, Variables.setLocal, view, Slot.text?]

theorem view_set {s : ScopeStack} {level : Nat} (live : level < s.depth) (name text : String) :
    (s.modify (s.home level name) (·.assign name text)).view =
      s.view.set level name text := by
  cases level with
  | zero => exact s.view_assign_global name text
  | succ k =>
      rw [Variables.set]
      split
      · rename_i hlinked
        rw [home_linked hlinked]
        exact s.view_assign_global name text
      · rename_i hlocal
        rw [home_local hlocal]
        exact view_assign_local live hlocal text

theorem view_link {s : ScopeStack} {level : Nat} (live : level < s.depth) (name : String) :
    (s.link level name 0 none).view = s.view.link level name := by
  have hslot := s.slot?_link_global live name
  cases level with
  | zero =>
      refine view_eq ?_ ?_ ?_ <;> intros <;> rw [hslot, if_neg (by simp)] <;> rfl
  | succ k =>
      refine view_eq ?_ ?_ ?_
      · intro n
        rw [hslot, if_neg (by simp)]
        rfl
      · intro i n
        rw [hslot]
        by_cases hn : i = k ∧ n = name <;> simp [hn, Variables.link, view, Slot.isLink]
      · intro i n
        rw [hslot]
        by_cases hn : i = k ∧ n = name <;> simp [hn, Variables.link, view, Slot.text?]

theorem view_push (s : ScopeStack) : s.push.view = s.view := by
  refine view_eq ?_ ?_ ?_ <;> intros <;> rw [slot?_push] <;> rfl

theorem LinksKept.push (s : ScopeStack) : LinksKept s s.push where
  stay h _ := (s.slot?_push ..).trans h
  come h := .inl ((s.slot?_push ..).symm.trans h)

/-- A new scope on top makes no difference to what is seen from below. -/
theorem Scoped.get_push {s : ScopeStack} (h : s.Scoped) (level : Nat) (name : String) :
    s.push.get level name = s.get level name := by
  rw [((LinksKept.push s).scoped h).get_eq, h.get_eq, view_push]

theorem LinksKept.drop (s : ScopeStack) : LinksKept s s.drop where
  stay h live := (s.slot?_drop live _).trans h
  come h := .inl ((s.slot?_drop (lt_depth_of_slot? h) _).symm.trans h)

theorem LinksKept.link {s : ScopeStack} (h : s.Scoped) {level : Nat} (live : level < s.depth)
    (name : String) : LinksKept s (s.link level name 0 none) where
  stay := by
    intro other n frame target hslot _
    rw [slot?_link_global s live]
    split
    · rename_i hsame
      obtain ⟨_, rfl, rfl⟩ := hsame
      obtain ⟨rfl, rfl⟩ := h.links hslot
      rfl
    · exact hslot
  come := by
    intro other n frame target hslot
    rw [slot?_link_global s live] at hslot
    split at hslot
    · rename_i hsame
      obtain ⟨hlevel, rfl, rfl⟩ := hsame
      cases hslot
      exact .inr ⟨hlevel, rfl, rfl⟩
    · exact .inl hslot

/-- An assignment goes where there is no link, so it never overwrites one. -/
theorem LinksKept.set {s s' : ScopeStack} (h : s.Scoped) {level : Nat} (live : level < s.depth)
    {name text : String} (hset : s.set level name text = .ok s') : LinksKept s s' := by
  rw [h.set_eq] at hset
  cases hset
  have hslot := s.slot?_assign (home_lt_depth live name) name text
  constructor
  · intro other n frame target hlink _
    rw [hslot]
    split
    · rename_i hsame
      obtain ⟨rfl, rfl⟩ := hsame
      -- what is overwritten is no link: the assignment has already gone through it
      exact absurd hlink (h.home_not_link level n frame target)
    · exact hlink
  · intro other n frame target hlink
    rw [hslot] at hlink
    split at hlink
    · cases hlink
    · exact .inl hlink

/-! ## Two scopes -/

/-- From the levels that exist, access to a stack of scopes is access to some variables. -/
structure ActsAs (s : ScopeStack) (v : Variables) : Prop where
  get : ∀ {level}, level < s.depth → ∀ name, s.get level name = match v.get level name with
    | some text => .ok text
    | none => .error (.script (.unknownVariable name))
  has : ∀ {level}, level < s.depth → ∀ name,
    s.has level name = .ok (v.get level name).isSome
  set : ∀ {level}, level < s.depth → ∀ name text, ∃ s', s.set level name text = .ok s' ∧
    s'.depth = s.depth ∧ s'.view = v.set level name text
  link : ∀ {level}, level < s.depth → ∀ name,
    (s.link level name 0 none).view = v.link level name
  hop : ∀ {level}, level < s.depth → ∀ name, ∃ other, s.resolve level name = .ok (other, name) ∧
    other < s.depth ∧ ∀ frame target, s.slot? other name ≠ some (.link frame target)
  /-- A level that is gone has neither links nor variables. -/
  gone : ∀ {k}, s.depth ≤ k + 1 → ∀ name,
    (v.calls k).linked name = false ∧ (v.calls k).locals name = none

theorem Scoped.actsAs {s : ScopeStack} (h : s.Scoped) : s.ActsAs s.view where
  get _ name := h.get_eq _ name
  has _ name := h.has_eq _ name
  set live name text := ⟨_, h.set_eq _ name text, depth_modify .., view_set live name text⟩
  link live name := view_link live name
  hop live name := ⟨_, h.resolve_eq _ name, home_lt_depth live name, h.home_not_link _ name⟩
  gone hgone name := by simp [view, slot?_eq_none hgone]

end ScopeStack

/-! ## Listing the values of a scope -/

theorem Table.mem_entries_iff {α : Type} (t : Table α) (name : String) (value : α) :
    (name, value) ∈ t.entries ↔ t.find? name = some value := by
  obtain ⟨entries, nodup⟩ := t
  simp only [Table.find?]
  induction entries with
  | nil => simp
  | cons entry rest ih =>
      obtain ⟨hfresh, hrest⟩ := List.nodup_cons.1 nodup
      rw [lookup_cons_eq, List.mem_cons]
      split
      · rename_i hname
        -- a name that stands first is not met again
        have hnone : (name, value) ∉ rest := fun h =>
          hfresh (hname ▸ List.mem_map_of_mem (f := Prod.fst) h)
        simp only [hnone, or_false, Option.some.injEq]
        exact ⟨fun h => (congrArg Prod.snd h).symm, fun h => Prod.ext hname h.symm⟩
      · rename_i hname
        have hne : (name, value) ≠ entry := fun h => hname (congrArg Prod.fst h)
        rw [← ih hrest]
        simp [hne]

theorem Scope.mem_values_iff (s : Scope) (name text : String) :
    (name, text) ∈ s.values ↔ s.find? name = some (.value text) := by
  rw [← Table.mem_entries_iff, Scope.values, List.mem_filterMap]
  constructor
  · rintro ⟨⟨n, slot⟩, hmem, heq⟩
    cases slot with
    | value text' =>
        cases heq
        exact hmem
    | link frame target => cases heq
  · intro hmem
    exact ⟨_, hmem, rfl⟩

theorem Scope.nodup_values (s : Scope) : (s.values.map Prod.fst).Nodup := by
  have hsub : (s.values.map Prod.fst).Sublist (s.entries.map Prod.fst) := by
    rw [Scope.values, List.map_filterMap]
    induction s.entries with
    | nil => exact .slnil
    | cons entry rest ih =>
        obtain ⟨name, slot⟩ := entry
        cases slot with
        | value text => exact ih.cons_cons name
        | link frame target => exact ih.cons name
  exact hsub.nodup s.nodup

end EmbeddedTcl
