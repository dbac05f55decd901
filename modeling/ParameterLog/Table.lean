/-
Module: ParameterLog.Table
Purpose: finite maps as lists of bindings.
Main exports: Table, Table.find?, Table.insert, Table.erase, Table.Distinct
-/

/-!
A table binds keys to values, each key at most once (`Distinct`). `find?_insert` and `find?_erase`
say what the operations do to the lookups, which are all that the library ever asks of a table
besides its size and its values.
-/

namespace ParameterLog

/-- Bindings of keys to values. -/
structure Table (κ ν : Type) where
  bindings : List (κ × ν)
deriving Repr, Inhabited

namespace Table

variable {κ ν : Type} [DecidableEq κ]

/-- The table without bindings. -/
def empty : Table κ ν := ⟨[]⟩

/-- The value of a key. -/
def find? (table : Table κ ν) (key : κ) : Option ν :=
  (table.bindings.find? fun binding => binding.1 = key).map (·.2)

/-- Whether a key has a value. -/
def contains (table : Table κ ν) (key : κ) : Bool := (table.find? key).isSome

/-- Removes the binding of a key. -/
def erase (table : Table κ ν) (key : κ) : Table κ ν :=
  ⟨table.bindings.filter fun binding => binding.1 ≠ key⟩

/-- Binds a key to a value, in place of its old one. -/
def insert (table : Table κ ν) (key : κ) (value : ν) : Table κ ν :=
  ⟨(key, value) :: (table.erase key).bindings⟩

/-- The number of bindings. -/
def size (table : Table κ ν) : Nat := table.bindings.length

/-- The values that are bound. -/
def values (table : Table κ ν) : List ν := table.bindings.map (·.2)

@[simp] theorem find?_empty (key : κ) : (empty : Table κ ν).find? key = none := rfl

theorem find?_erase (table : Table κ ν) (key other : κ) :
    (table.erase key).find? other = if other = key then none else table.find? other := by
  simp only [find?, erase, List.find?_filter]
  split
  · next h =>
    subst h
    have : (table.bindings.find? fun a =>
        decide (decide (a.1 ≠ other) = true) && decide (a.1 = other)) = none := by
      rw [List.find?_eq_none]
      intro binding _
      simp
    simp_all
  · next h =>
    congr 2
    funext binding
    by_cases hb : binding.1 = other
    · simp [hb, h]
    · simp [hb]

theorem find?_insert (table : Table κ ν) (key other : κ) (value : ν) :
    (table.insert key value).find? other =
      if other = key then some value else table.find? other := by
  have h := find?_erase table key other
  by_cases hk : other = key
  · subst hk
    simp [find?, insert]
  · simp only [hk, if_false] at h ⊢
    rw [← h]
    simp [find?, insert, Ne.symm hk]

theorem erase_of_find?_eq_none {table : Table κ ν} {key : κ} (h : table.find? key = none) :
    table.erase key = table := by
  have hnone : table.bindings.find? (fun binding => binding.1 = key) = none :=
    Option.map_eq_none_iff.mp h
  have hall : table.bindings.filter (fun binding => binding.1 ≠ key) = table.bindings := by
    rw [List.filter_eq_self]
    intro binding hbinding
    have := List.find?_eq_none.mp hnone binding hbinding
    simpa using this
  rw [erase, hall]

/-- Each key is bound at most once. -/
def Distinct (table : Table κ ν) : Prop := table.bindings.Pairwise fun a b => a.1 ≠ b.1

omit [DecidableEq κ] in
theorem distinct_empty : (empty : Table κ ν).Distinct := List.Pairwise.nil

theorem Distinct.erase {table : Table κ ν} (h : table.Distinct) (key : κ) :
    (table.erase key).Distinct := h.filter _

theorem Distinct.insert {table : Table κ ν} (h : table.Distinct) (key : κ) (value : ν) :
    (table.insert key value).Distinct := by
  refine List.pairwise_cons.mpr ⟨fun binding hbinding => ?_, h.erase key⟩
  have hkept := (List.mem_filter.mp hbinding).2
  exact fun heq => (of_decide_eq_true hkept) heq.symm

/-- A binding says what its key leads to. -/
theorem Distinct.find?_of_mem {table : Table κ ν} (h : table.Distinct) {binding : κ × ν}
    (hmem : binding ∈ table.bindings) : table.find? binding.1 = some binding.2 := by
  obtain ⟨front, back, hsplit⟩ := List.append_of_mem hmem
  rw [Distinct, hsplit, List.pairwise_append] at h
  have hnone : front.find? (fun other => decide (other.1 = binding.1)) = none := by
    rw [List.find?_eq_none]
    intro other hother heq
    exact h.2.2 other hother binding List.mem_cons_self (of_decide_eq_true heq)
  simp [find?, hsplit, List.find?_append, hnone]

/-- A table has the values that its keys lead to. -/
theorem Distinct.mem_values_iff {table : Table κ ν} (h : table.Distinct) {value : ν} :
    value ∈ table.values ↔ ∃ key, table.find? key = some value := by
  constructor
  · intro hvalue
    obtain ⟨binding, hmem, rfl⟩ := List.mem_map.mp hvalue
    exact ⟨binding.1, h.find?_of_mem hmem⟩
  · rintro ⟨key, hfound⟩
    obtain ⟨binding, hbinding, rfl⟩ := Option.map_eq_some_iff.mp hfound
    exact List.mem_map.mpr ⟨binding, List.mem_of_find?_eq_some hbinding, rfl⟩

/-- Values that are named by their keys have names of their own. -/
theorem Distinct.nodup_names {table : Table κ ν} (h : table.Distinct) {name : ν → κ}
    (hname : ∀ key value, table.find? key = some value → name value = key) :
    (table.values.map name).Nodup := by
  have hkeys : table.values.map name = table.bindings.map (·.1) := by
    rw [values, List.map_map]
    apply List.map_congr_left
    intro binding hmem
    exact hname _ _ (h.find?_of_mem hmem)
  rw [hkeys, List.Nodup, List.pairwise_map]
  exact h

end Table
end ParameterLog
