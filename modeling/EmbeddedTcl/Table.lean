/-!
# Tables

Finite maps from names that remember the order in which names were first added. Setting a name
again keeps its place; a name that is erased and set again goes to the end.
-/

namespace EmbeddedTcl

/-- Gives `name` the value `value`, in place if it has one. -/
def put {α : Type} (name : String) (value : α) : List (String × α) → List (String × α)
  | [] => [(name, value)]
  | entry :: rest =>
    if entry.1 = name then (name, value) :: rest else entry :: put name value rest

theorem map_fst_put {α : Type} (name : String) (value : α) (entries : List (String × α)) :
    (put name value entries).map Prod.fst =
      if name ∈ entries.map Prod.fst then entries.map Prod.fst
      else entries.map Prod.fst ++ [name] := by
  induction entries with
  | nil => simp [put]
  | cons entry rest ih =>
    by_cases h : entry.1 = name
    · simp [put, h]
    · have h' : ¬ name = entry.1 := fun e => h e.symm
      simp only [put, h, if_false, List.map_cons, ih, List.mem_cons, h', false_or]
      split <;> simp

theorem nodup_put {α : Type} (name : String) (value : α) {entries : List (String × α)}
    (h : (entries.map Prod.fst).Nodup) : ((put name value entries).map Prod.fst).Nodup := by
  rw [map_fst_put]
  split
  · exact h
  · rename_i absent
    rw [List.nodup_append]
    refine ⟨h, by simp, ?_⟩
    intro a ha b hb hab
    rw [List.mem_singleton] at hb
    exact absent (hb ▸ hab ▸ ha)

theorem lookup_cons_eq {α : Type} (name : String) (entry : String × α)
    (rest : List (String × α)) :
    (entry :: rest).lookup name = if name = entry.1 then some entry.2 else rest.lookup name := by
  rw [List.lookup_cons]
  by_cases h : name = entry.1
  · simp [h]
  · simp [h, beq_eq_false_iff_ne.mpr h]

theorem lookup_put {α : Type} (name other : String) (value : α) (entries : List (String × α)) :
    (put name value entries).lookup other =
      if other = name then some value else entries.lookup other := by
  induction entries with
  | nil => simp [put, lookup_cons_eq]
  | cons entry rest ih =>
    by_cases h : entry.1 = name
    · simp only [put, h, if_true, lookup_cons_eq]
      split <;> rfl
    · simp only [put, h, if_false, lookup_cons_eq, ih]
      by_cases h' : other = entry.1
      · simp [h', h]
      · simp [h']

theorem lookup_filter_ne {α : Type} (name other : String) (entries : List (String × α)) :
    (entries.filter fun entry => entry.1 != name).lookup other =
      if other = name then none else entries.lookup other := by
  induction entries with
  | nil => simp
  | cons entry rest ih =>
    by_cases h : entry.1 = name
    · rw [List.filter_cons_of_neg (by simp [h]), ih, lookup_cons_eq, h]
      split <;> rfl
    · rw [List.filter_cons_of_pos (by simp [h]), lookup_cons_eq, lookup_cons_eq, ih]
      by_cases h' : other = entry.1
      · simp [h', h]
      · simp [h']

/-- A finite map from names, in the order of first insertion. -/
structure Table (α : Type) where
  entries : List (String × α)
  nodup : (entries.map Prod.fst).Nodup

namespace Table

variable {α : Type}

def empty : Table α := ⟨[], by simp⟩

def find? (t : Table α) (name : String) : Option α :=
  t.entries.lookup name

def contains (t : Table α) (name : String) : Bool :=
  (t.find? name).isSome

def insert (t : Table α) (name : String) (value : α) : Table α :=
  ⟨put name value t.entries, nodup_put name value t.nodup⟩

def erase (t : Table α) (name : String) : Table α :=
  ⟨t.entries.filter fun entry => entry.1 != name,
    (List.filter_sublist.map Prod.fst).nodup t.nodup⟩

def insertAll (t : Table α) (entries : List (String × α)) : Table α :=
  entries.foldl (fun t entry => t.insert entry.1 entry.2) t

def ofList (entries : List (String × α)) : Table α :=
  empty.insertAll entries

def names (t : Table α) : List String :=
  t.entries.map Prod.fst

/-- Entries in the order of their names. -/
def sorted (t : Table α) : List (String × α) :=
  t.entries.mergeSort fun a b => decide (a.1 ≤ b.1)

@[ext]
theorem ext {s t : Table α} (h : s.entries = t.entries) : s = t := by
  cases s
  cases t
  simp_all

@[simp]
theorem find?_empty (name : String) : (empty : Table α).find? name = none := rfl

theorem find?_insert (t : Table α) (name other : String) (value : α) :
    (t.insert name value).find? other = if other = name then some value else t.find? other :=
  lookup_put name other value t.entries

theorem find?_erase (t : Table α) (name other : String) :
    (t.erase name).find? other = if other = name then none else t.find? other :=
  lookup_filter_ne name other t.entries

end Table

end EmbeddedTcl
