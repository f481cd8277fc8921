import EmbeddedTcl.Scope.Stack

/-!
# Laws of scope stacks

What each operation does to the number of scopes and to the slot of a name at a level. Everything
else about scope stacks is derived from these, and no later proof looks at how the scopes are kept.
-/

namespace EmbeddedTcl.ScopeStack

/-- The slot of a name in the scope at a level. -/
def slot? (s : ScopeStack) (level : Nat) (name : String) : Option Slot :=
  (s.scope? level).bind (·.find? name)

/-! ## How many scopes there are -/

theorem length_toList (s : ScopeStack) : s.toList.length = s.depth := by
  simp [toList, depth]

@[simp]
theorem depth_modify (s : ScopeStack) (level : Nat) (f : Scope → Scope) :
    (s.modify level f).depth = s.depth := by
  cases level with
  | zero => rfl
  | succ n => simp [modify, depth]

@[simp]
theorem depth_push (s : ScopeStack) : s.push.depth = s.depth + 1 := rfl

theorem depth_drop {s : ScopeStack} {n : Nat} (h : s.depth = n + 2) : s.drop.depth = n + 1 := by
  simp only [depth, drop, List.length_tail] at *
  omega

theorem depth_set {s s' : ScopeStack} {level : Nat} {name text : String}
    (h : s.set level name text = .ok s') : s'.depth = s.depth := by
  unfold set at h
  split at h
  · cases h
  · cases h
    exact depth_modify ..

theorem depth_unset {s s' : ScopeStack} {level : Nat} {name : String}
    (h : s.unset level name = .ok s') : s'.depth = s.depth := by
  unfold unset at h
  split at h
  · cases h
    exact depth_modify ..
  · cases h

@[simp]
theorem depth_link (s : ScopeStack) (level : Nat) (name : String) (frame : Int)
    (target : Option String) : (s.link level name frame target).depth = s.depth :=
  depth_modify ..

@[simp]
theorem depth_bind (s : ScopeStack) (params args : List String) :
    (s.bind params args).depth = s.depth :=
  depth_modify ..

theorem top_lt_depth (s : ScopeStack) : s.top < s.depth :=
  Nat.lt_succ_self _

theorem caller_lt_depth (s : ScopeStack) : s.caller < s.depth :=
  Nat.lt_succ_of_le (Nat.sub_le ..)

theorem top_modify (s : ScopeStack) (level : Nat) (f : Scope → Scope) :
    (s.modify level f).top = s.top :=
  Nat.succ.inj (s.depth_modify level f)

theorem caller_link (s : ScopeStack) (level : Nat) (name : String) (frame : Int)
    (target : Option String) : (s.link level name frame target).caller = s.caller :=
  congrArg (· - 1) (s.top_modify level _)

/-! ## What the slots hold -/

theorem scope?_eq_none {s : ScopeStack} {level : Nat} (h : s.depth ≤ level) :
    s.scope? level = none := by
  rw [scope?, List.getElem?_eq_none_iff, length_toList]
  exact h

theorem exists_scope? {s : ScopeStack} {level : Nat} (h : level < s.depth) :
    ∃ scope, s.scope? level = some scope := by
  rw [← length_toList] at h
  exact ⟨_, List.getElem?_eq_getElem h⟩

theorem slot?_eq_none {s : ScopeStack} {level : Nat} (h : s.depth ≤ level) (name : String) :
    s.slot? level name = none := by
  rw [slot?, scope?_eq_none h]
  rfl

theorem lt_depth_of_slot? {s : ScopeStack} {level : Nat} {name : String} {slot : Slot}
    (h : s.slot? level name = some slot) : level < s.depth := by
  refine Nat.lt_of_not_le fun hlevel => ?_
  rw [slot?_eq_none hlevel] at h
  cases h

theorem toList_modify (s : ScopeStack) (level : Nat) (f : Scope → Scope) :
    (s.modify level f).toList = s.toList.modify level f := by
  cases level with
  | zero => rfl
  | succ n => simp [modify, toList]

theorem modify_modify (s : ScopeStack) (level : Nat) (f g : Scope → Scope) :
    (s.modify level f).modify level g = s.modify level fun scope => g (f scope) := by
  cases level with
  | zero => rfl
  | succ n => simp [modify, List.modify_modify_eq, Function.comp_def]

theorem modify_id (s : ScopeStack) (level : Nat) : (s.modify level fun scope => scope) = s := by
  cases level with
  | zero => rfl
  | succ n =>
      have hid : (s.locals.reverse.modify n fun scope => scope) = s.locals.reverse :=
        List.modify_id n _
      rw [modify, hid, List.reverse_reverse]

theorem scope?_modify (s : ScopeStack) (level other : Nat) (f : Scope → Scope) :
    (s.modify level f).scope? other =
      if level = other then (s.scope? other).map f else s.scope? other := by
  rw [scope?, toList_modify, List.getElem?_modify]
  split
  · rfl
  · exact id_map _

theorem slot?_insert (s : ScopeStack) {level : Nat} (live : level < s.depth) (name : String)
    (slot : Slot) (other : Nat) (n : String) :
    (s.modify level fun scope => scope.insert name slot).slot? other n =
      if other = level ∧ n = name then some slot else s.slot? other n := by
  rw [slot?, scope?_modify]
  by_cases hlevel : level = other
  · subst hlevel
    obtain ⟨scope, hscope⟩ := exists_scope? live
    rw [if_pos rfl, slot?, hscope]
    simp [Table.find?_insert]
  · have hne : ¬ (other = level ∧ n = name) := fun h => hlevel h.1.symm
    rw [if_neg hlevel, if_neg hne]
    rfl

theorem slot?_assign (s : ScopeStack) {level : Nat} (live : level < s.depth) (name text : String)
    (other : Nat) (n : String) :
    (s.modify level fun scope => scope.assign name text).slot? other n =
      if other = level ∧ n = name then some (.value text) else s.slot? other n :=
  s.slot?_insert live name (.value text) other n

/-- In the scope of a call a name is linked, whichever call it is. -/
theorem scopeLink_global (scope : Scope) (k : Nat) (name : String) :
    scope.link (k + 1 : Nat) name 0 none = scope.insert name (.link 0 name) := by
  have hself : ¬ ((0 : Int) = (k + 1 : Nat) ∧ Scope.linkTarget name none = name) := by
    rintro ⟨h, _⟩
    omega
  rw [Scope.link, if_neg hself]
  rfl

/-- A scope at a call's level is linked to the global one; the global scope itself is not. -/
theorem slot?_link_global (s : ScopeStack) {level : Nat} (live : level < s.depth) (name : String)
    (other : Nat) (n : String) :
    (s.link level name 0 none).slot? other n =
      if level ≠ 0 ∧ other = level ∧ n = name then some (.link 0 name) else s.slot? other n := by
  cases level with
  | zero =>
      have hlink : s.link 0 name 0 none = s := by
        simp [link, modify, Scope.link, Scope.linkTarget]
      rw [if_neg fun h => h.1 rfl, hlink]
  | succ k =>
      have hlink : s.link (k + 1) name 0 none =
          s.modify (k + 1) fun scope => scope.insert name (.link 0 name) := by
        simp only [link, scopeLink_global]
      rw [hlink, slot?_insert s live]
      simp

theorem slot?_zero (s : ScopeStack) (name : String) : s.slot? 0 name = s.globals.find? name := rfl

theorem toList_push (s : ScopeStack) : s.push.toList = s.toList ++ [Table.empty] := by
  simp [push, toList]

theorem scope?_push (s : ScopeStack) (level : Nat) :
    s.push.scope? level = if level = s.depth then some Table.empty else s.scope? level := by
  rw [scope?, toList_push]
  rcases Nat.lt_trichotomy level s.depth with hlt | rfl | hgt
  · rw [List.getElem?_append_left (by rwa [length_toList]), if_neg (Nat.ne_of_lt hlt), scope?]
  · rw [if_pos rfl, ← length_toList, List.getElem?_concat_length]
  · have hlength : (s.toList ++ [Table.empty]).length ≤ level := by
      simp only [List.length_append, length_toList, List.length_singleton]
      omega
    rw [if_neg (Nat.ne_of_gt hgt), scope?_eq_none (Nat.le_of_lt hgt),
      List.getElem?_eq_none_iff.2 hlength]

theorem scope?_drop (s : ScopeStack) {level : Nat} (live : level < s.drop.depth) :
    s.drop.scope? level = s.scope? level := by
  obtain ⟨globals, locals⟩ := s
  cases locals with
  | nil => rfl
  | cons scope more =>
      have hlist : (⟨globals, scope :: more⟩ : ScopeStack).toList =
          (⟨globals, more⟩ : ScopeStack).toList ++ [scope] := by
        simp [toList]
      have hlive : level < (⟨globals, more⟩ : ScopeStack).toList.length := by
        rw [length_toList]
        exact live
      rw [scope?, scope?, hlist, List.getElem?_append_left hlive]
      rfl

/-- A new scope holds nothing, so no slot changes. -/
theorem slot?_push (s : ScopeStack) (level : Nat) (name : String) :
    s.push.slot? level name = s.slot? level name := by
  rw [slot?, scope?_push]
  split
  · rename_i h
    rw [slot?_eq_none (Nat.le_of_eq h.symm)]
    rfl
  · rfl

theorem slot?_drop (s : ScopeStack) {level : Nat} (live : level < s.drop.depth) (name : String) :
    s.drop.slot? level name = s.slot? level name := by
  rw [slot?, scope?_drop s live, slot?]

/-! ## Access by name -/

/-- No name at a level is a link. -/
def LinkFree (s : ScopeStack) (level : Nat) : Prop :=
  ∀ name frame target, s.slot? level name ≠ some (.link frame target)

theorem resolve_link {s : ScopeStack} {level : Nat} {name target : String} {frame : Int}
    {other : Nat} (h : s.slot? level name = some (.link frame target))
    (hplace : place? s.depth frame = some other) : s.resolve level name = .ok (other, target) := by
  unfold resolve
  rw [← slot?, h]
  simp only [hplace]

theorem resolve_own {s : ScopeStack} {level : Nat} {name : String}
    (h : ∀ frame target, s.slot? level name ≠ some (.link frame target)) :
    s.resolve level name = .ok (level, name) := by
  unfold resolve
  rw [← slot?]
  split
  · rename_i frame target heq
    exact absurd heq (h frame target)
  · rfl

theorem set_own {s : ScopeStack} {level : Nat} {name : String} (text : String)
    (h : ∀ frame target, s.slot? level name ≠ some (.link frame target)) :
    s.set level name text = .ok (s.modify level (·.assign name text)) := by
  rw [set, resolve_own h]

theorem LinkFree.push (s : ScopeStack) : s.push.LinkFree s.push.top := by
  intro name frame target h
  have hlevel : s.depth ≤ s.push.top := Nat.le_refl _
  rw [slot?_push, slot?_eq_none hlevel] at h
  cases h

theorem LinkFree.assign {s : ScopeStack} {level : Nat} (h : s.LinkFree level)
    (live : level < s.depth) (name text : String) :
    (s.modify level (·.assign name text)).LinkFree level := by
  intro n frame target heq
  rw [slot?_assign s live] at heq
  split at heq
  · cases heq
  · exact h n frame target heq

end EmbeddedTcl.ScopeStack
