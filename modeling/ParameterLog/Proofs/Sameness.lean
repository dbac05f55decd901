/-
Module: ParameterLog.Proofs.Sameness
Purpose: objects that are the same as equality of their plain forms.
Main exports: Value.same_iff, Parameters.same_iff, ParameterSet.same_iff, Catalog.plain,
  Catalog.answer_plain
-/
import Mathlib.Data.List.Forall2
import ParameterLog.Proofs.StoreReading

/-!
Objects are compared but for the sign of zeros and the marks of stores. Two objects are the same if
and only if they have one plain form, in which zeros are positive and nothing is marked, so being
the same is an equivalence. The plain form of a catalog has plain objects under the same identifiers
and keys, and what a catalog does to its objects it does to their plain forms.
-/

namespace ParameterLog

/-! ### Values -/

namespace Json

/-- The number, with the positive sign if it is zero. -/
def Double.plain (d : Double) : Double := if d.isZero then zero false else d

theorem Double.sameNumber_iff (a b : Double) : a.sameNumber b = true ↔ a.plain = b.plain := by
  have hzero (d : Double) (hd : d.isZero = false) : d ≠ zero false := by
    rintro rfl
    contradiction
  rw [sameNumber, Bool.or_eq_true, Bool.and_eq_true, beq_iff_eq, plain, plain]
  cases ha : a.isZero with
  | true =>
    cases hb : b.isZero with
    | true => simp
    | false =>
      have hne : a ≠ b := fun heq => by rw [heq, hb] at ha; contradiction
      simp [hne, (hzero b hb).symm]
  | false =>
    cases hb : b.isZero with
    | true =>
      have hne : a ≠ b := fun heq => by rw [heq, hb] at ha; contradiction
      simp [hne, hzero a ha]
    | false => simp

/-- The number as an integer or as a plain double. -/
def Number.plain : Number → Number
  | .integer n => .integer n
  | .double d => .double d.plain

theorem Number.same_iff (a b : Number) : a.same b = true ↔ a.plain = b.plain := by
  cases a with
  | integer m => cases b <;> simp [same, plain]
  | double d =>
    cases b with
    | integer n => simp [same, plain]
    | double e => rw [same, plain, plain, Number.double.injEq, Double.sameNumber_iff]

namespace Value

mutual

/-- The value with plain numbers. -/
def plain : Value → Value
  | .number n => .number n.plain
  | .array items => .array (plainItems items)
  | .object members => .object (plainMembers members)
  | other => other

/-- The items with plain numbers. -/
def plainItems : List Value → List Value
  | [] => []
  | v :: rest => plain v :: plainItems rest

/-- The members with plain numbers. -/
def plainMembers : List (String × Value) → List (String × Value)
  | [] => []
  | (name, v) :: rest => (name, plain v) :: plainMembers rest

end

mutual

/-- Two values are the same if they have one plain form. -/
theorem same_iff : ∀ a b : Value, a.same b = true ↔ a.plain = b.plain
  | .null, b => by cases b <;> simp [same, plain]
  | .bool _, b => by cases b <;> simp [same, plain]
  | .text _, b => by cases b <;> simp [same, plain]
  | .number m, b => by
    cases b with
    | number n => rw [same, plain, plain, Value.number.injEq, Number.same_iff]
    | _ => simp [same, plain]
  | .array items, b => by
    cases b with
    | array others => rw [same, plain, plain, Value.array.injEq, sameItems_iff items others]
    | _ => simp [same, plain]
  | .object members, b => by
    cases b with
    | object others => rw [same, plain, plain, Value.object.injEq, sameMembers_iff members others]
    | _ => simp [same, plain]

theorem sameItems_iff : ∀ as bs : List Value, sameItems as bs = true ↔ plainItems as = plainItems bs
  | [], bs => by cases bs <;> simp [sameItems, plainItems]
  | a :: as, [] => by simp [sameItems, plainItems]
  | a :: as, b :: bs => by
    rw [sameItems, plainItems, plainItems, Bool.and_eq_true, same_iff a b, sameItems_iff as bs,
      List.cons.injEq]

theorem sameMembers_iff : ∀ as bs : List (String × Value),
    sameMembers as bs = true ↔ plainMembers as = plainMembers bs
  | [], bs => by cases bs <;> simp [sameMembers, plainMembers]
  | a :: as, [] => by simp [sameMembers, plainMembers]
  | (m, a) :: as, (n, b) :: bs => by
    rw [sameMembers, plainMembers, plainMembers, Bool.and_eq_true, Bool.and_eq_true, same_iff a b,
      sameMembers_iff as bs, List.cons.injEq, Prod.mk.injEq, beq_iff_eq]

end

theorem sameOption_iff (a b : Option Value) :
    sameOption a b = true ↔ a.map plain = b.map plain := by
  cases a with
  | none => cases b <;> simp [sameOption]
  | some v =>
    cases b with
    | none => simp [sameOption]
    | some w => simp [sameOption, same_iff]

end Value
end Json

open Json

/-! ### Parameters and sets -/

/-- The action with a plain configuration. -/
def Action.plain (action : Action) : Action :=
  { action with config := Value.plainMembers action.config }

theorem Action.same_iff (a b : Action) : a.same b = true ↔ a.plain = b.plain := by
  simp only [same, sameMap, Bool.and_eq_true, beq_iff_eq, Value.sameMembers_iff, plain,
    Action.mk.injEq, and_assoc]

/-- The group with plain data. -/
def ParameterGroup.plain (group : ParameterGroup) : ParameterGroup :=
  { group with data := Value.plainMembers group.data }

theorem ParameterGroup.same_iff (a b : ParameterGroup) : a.same b = true ↔ a.plain = b.plain := by
  simp only [same, sameMap, Bool.and_eq_true, beq_iff_eq, Value.sameMembers_iff, plain,
    ParameterGroup.mk.injEq]

/-- The parameters with plain values and without a mark. -/
def Parameters.plain (p : Parameters) : Parameters :=
  ⟨p.id, p.action.plain, p.group.plain, p.value.map Value.plain, none⟩

@[simp] theorem Parameters.plain_stamp (p : Parameters) (store : StoreId) :
    (p.stamp store).plain = p.plain := rfl

@[simp] theorem Parameters.id_plain (p : Parameters) : p.plain.id = p.id := rfl

theorem Parameters.same_iff (a b : Parameters) : a.same b = true ↔ a.plain = b.plain := by
  simp only [same, Bool.and_eq_true, beq_iff_eq, Action.same_iff, ParameterGroup.same_iff,
    Value.sameOption_iff, plain, Parameters.mk.injEq, and_assoc, and_true]

/-- The set with plain members and without a mark. -/
def ParameterSet.plain (set : ParameterSet) : ParameterSet :=
  ⟨set.hash, set.members.map Parameters.plain, none⟩

@[simp] theorem ParameterSet.plain_stamp (set : ParameterSet) (store : StoreId) :
    (set.stamp store).plain = set.plain := rfl

@[simp] theorem ParameterSet.hash_plain (set : ParameterSet) : set.plain.hash = set.hash := rfl

theorem map_plain_iff (ps qs : List Parameters) :
    (ps.length == qs.length && (ps.zip qs).all fun (p, q) => p.same q) = true ↔
      ps.map Parameters.plain = qs.map Parameters.plain := by
  induction ps generalizing qs with
  | nil => cases qs <;> simp
  | cons p ps ih =>
    cases qs with
    | nil => simp
    | cons q qs => simp [← ih, Parameters.same_iff, and_left_comm]

theorem ParameterSet.same_iff (a b : ParameterSet) : a.same b = true ↔ a.plain = b.plain := by
  rw [same, Bool.and_assoc, Bool.and_eq_true, beq_iff_eq, map_plain_iff, plain, plain,
    ParameterSet.mk.injEq]
  simp

/-! ### Tables -/

namespace Table

variable {κ ν μ : Type}

/-- The table with a function of each value. -/
def mapValues (f : ν → μ) (table : Table κ ν) : Table κ μ :=
  ⟨table.bindings.map fun binding => (binding.1, f binding.2)⟩

theorem values_mapValues (f : ν → μ) (table : Table κ ν) :
    (table.mapValues f).values = table.values.map f := by
  simp [values, mapValues]

variable [DecidableEq κ]

theorem find?_mapValues (f : ν → μ) (table : Table κ ν) (key : κ) :
    (table.mapValues f).find? key = (table.find? key).map f := by
  simp only [find?, mapValues, List.find?_map, Option.map_map]
  rfl

theorem contains_mapValues (f : ν → μ) (table : Table κ ν) (key : κ) :
    (table.mapValues f).contains key = table.contains key := by
  rw [contains, find?_mapValues, Option.isSome_map, contains]

theorem mapValues_erase (f : ν → μ) (table : Table κ ν) (key : κ) :
    (table.erase key).mapValues f = (table.mapValues f).erase key := by
  simp only [erase, mapValues, List.filter_map]
  rfl

theorem mapValues_insert (f : ν → μ) (table : Table κ ν) (key : κ) (value : ν) :
    (table.insert key value).mapValues f = (table.mapValues f).insert key (f value) := by
  rw [insert, insert, ← mapValues_erase]
  rfl

end Table

/-! ### Catalogs -/

/-- An answer with plain objects. -/
def Answer.plain : Answer → Answer
  | .parameters found => .parameters (found.map (·.plain))
  | .set found => .set (found.map (·.plain))
  | .allParameters all => .allParameters (all.map (·.plain))
  | .allSets all => .allSets (all.map (·.plain))

@[simp] theorem Answer.plain_stamp (answer : Answer) (store : StoreId) :
    (answer.stamp store).plain = answer.plain := by
  cases answer <;> simp [stamp, plain, Function.comp_def]

namespace Catalog

/-- The catalog with plain objects, under the configuration that has no members. -/
def plain (catalog : Catalog) : Catalog :=
  ⟨[], catalog.byId.mapValues Parameters.plain, catalog.idOfKey,
    catalog.sets.mapValues ParameterSet.plain⟩

theorem get?_plain (catalog : Catalog) (id : Bytes) :
    catalog.plain.get? id = (catalog.get? id).map Parameters.plain :=
  Table.find?_mapValues _ _ _

theorem set?_plain (catalog : Catalog) (hash : Bytes) :
    catalog.plain.set? hash = (catalog.set? hash).map ParameterSet.plain :=
  Table.find?_mapValues _ _ _

theorem ofKey?_plain (catalog : Catalog) (key : LookupKey) :
    catalog.plain.ofKey? key = (catalog.ofKey? key).map Parameters.plain := by
  simp only [ofKey?, plain]
  cases catalog.idOfKey.find? key with
  | none => rfl
  | some id => exact get?_plain catalog id

theorem hasRoom_plain (catalog : Catalog) (id : Bytes) (key : LookupKey) :
    catalog.plain.hasRoom id key = catalog.hasRoom id key := by
  simp [hasRoom, get?_plain, ofKey?_plain]

theorem plain_insert (catalog : Catalog) (key : LookupKey) (p : Parameters) :
    (catalog.insert key p).plain = catalog.plain.insert key p.plain := by
  simp [plain, insert, Table.mapValues_insert]

theorem plain_freeKey (catalog : Catalog) (key : LookupKey) (id : Bytes) :
    (catalog.freeKey key id).plain = catalog.plain.freeKey key id := by
  by_cases h : catalog.idOfKey.find? key = some id
  · simp [freeKey, plain, h]
  · simp [freeKey, plain, h]

theorem plain_withoutId (catalog : Catalog) (id : Bytes) :
    (catalog.withoutId id).plain = catalog.plain.withoutId id := by
  simp [plain, withoutId, Table.mapValues_erase]

/-- A plain catalog deletes as the catalog does. -/
theorem delete_plain (catalog : Catalog) (p : Parameters) :
    catalog.plain.delete p = ((catalog.delete p).1, (catalog.delete p).2.plain) := by
  simp only [delete]
  cases p.key with
  | error e => rfl
  | ok key =>
    simp only [plain_withoutId, plain_freeKey, Prod.mk.injEq, Except.ok.injEq, and_true]
    exact Table.contains_mapValues _ _ _

theorem deleteSet_plain (catalog : Catalog) (hash : Bytes) :
    catalog.plain.deleteSet hash =
      ((catalog.deleteSet hash).1, (catalog.deleteSet hash).2.plain) := by
  simp [deleteSet, plain, Table.contains_mapValues, Table.mapValues_erase]

/-- A plain catalog saves the plain form of a set as the catalog saves the set. -/
theorem saveSet_plain (catalog : Catalog) (set : ParameterSet) :
    catalog.plain.saveSet set.plain = ((catalog.saveSet set).1, (catalog.saveSet set).2.plain) := by
  have hcontains : catalog.plain.sets.contains set.plain.hash = catalog.sets.contains set.hash :=
    Table.contains_mapValues _ _ _
  rw [saveSet, saveSet, hcontains]
  split
  · rfl
  · simp [plain, Table.mapValues_insert]

/-- What a plain catalog answers is the plain form of what the catalog answers. -/
theorem answer_plain (catalog : Catalog) (query : Query) :
    catalog.plain.answer query = (catalog.answer query).map Answer.plain := by
  cases query with
  | byId id => simp [answer, get?_plain, Except.map, Answer.plain]
  | byKey action group =>
    simp only [answer, find]
    cases LookupKey.of action group with
    | error e => rfl
    | ok key => simp [Except.map, Answer.plain, ofKey?_plain]
  | byHash hash => simp [answer, set?_plain, Except.map, Answer.plain]
  | allParameters =>
    have hsorted := List.map_mergeSort (r := fun a b : Parameters => decide (a.id ≤ b.id))
      (s := fun a b => decide (a.id ≤ b.id)) (f := Parameters.plain) (l := catalog.byId.values)
      fun _ _ _ _ => rfl
    simp [answer, allParameters, Except.map, Answer.plain, hsorted, plain, Table.values_mapValues]
  | allSets =>
    have hsorted := List.map_mergeSort (r := fun a b : ParameterSet => decide (a.hash ≤ b.hash))
      (s := fun a b => decide (a.hash ≤ b.hash)) (f := ParameterSet.plain)
      (l := catalog.sets.values) fun _ _ _ _ => rfl
    simp [answer, allSets, Except.map, Answer.plain, hsorted, plain, Table.values_mapValues]

end Catalog
end ParameterLog
