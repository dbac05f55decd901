/-
Module: ParameterLog.Proofs.CatalogReplay
Purpose: what a catalog holds after entries of a log have been taken in.
Main exports: Entry.content, Catalog.hold, Catalog.after, Catalog.Extends, Catalog.extends_after,
  Catalog.Coherent, Catalog.Coherent.after, Catalog.taken_of_mem, Catalog.mem_of_get?_after
-/
import Mathlib.Data.List.Induction
import ParameterLog.Catalog.Replay

/-!
What an entry asks a catalog to hold does not depend on the catalog (`content`); whether the catalog
has a place for it does (`hold`). No entry makes a replay fail, so replaying is a fold (`after`).

Two facts about it carry all others. An answer once given stays (`Extends`): taking entries in
never changes what an identifier, a key or a hash leads to. And as long as nothing is deleted, the
identifiers and the keys of a catalog lead to the same objects (`Coherent`).
-/

namespace ParameterLog

/-- What holds at the start of a run and is kept by each of its steps holds all along the run. -/
theorem holds_along_foldl {σ α : Type} {step : σ → α → σ} {start : σ} {inputs : List α}
    {P : σ → Prop} (hstart : P start)
    (hstep : ∀ before last, before ++ [last] <+: inputs → P (before.foldl step start) →
      P (step (before.foldl step start) last)) :
    ∀ before, before <+: inputs → P (before.foldl step start) := by
  intro before
  induction before using List.reverseRecOn with
  | nil => exact fun _ => hstart
  | append_singleton front last ih =>
    intro hinitial
    rw [List.foldl_append]
    exact hstep front last hinitial (ih ((List.prefix_append _ _).trans hinitial))

theorem Shape.refuse_ne_ok {α : Type} {expected : String} {input : Bytes} {result : α} :
    Shape.refuse expected input ≠ .ok result := by
  unfold Shape.refuse
  split
  · simp
  · split
    · simp
    · split
      · simp
      · split <;> simp

namespace RecordShape

variable {δ α : Type} {record : RecordShape δ α} {value : α} {rest : Bytes}

theorem finish_of_finishText {draft : δ} {input : Bytes}
    (h : record.finishText draft input = .ok (value, rest)) : record.finish draft = .ok value := by
  unfold finishText at h
  split at h
  · next found hfinish =>
    obtain ⟨rfl, -⟩ := Prod.mk.inj (Except.ok.inj h)
    exact hfinish
  · simp at h

theorem finish_of_fromText {length levels : Nat} {input : Bytes}
    (h : record.fromText length levels input = .ok (value, rest)) :
    ∃ draft, record.finish draft = .ok value := by
  unfold fromText at h
  split at h
  · split at h
    · simp at h
    · split at h
      · simp at h
      · exact ⟨_, finish_of_finishText h⟩
  · split at h
    · simp at h
    · split at h
      · simp at h
      · split at h
        · simp at h
        · next found after hfinish =>
          cases hclose : closeArray after with
          | error e => simp [hclose, Except.map] at h
          | ok input =>
            simp only [hclose, Except.map, Except.ok.injEq, Prod.mk.injEq] at h
            obtain ⟨rfl, -⟩ := h
            exact ⟨_, finish_of_finishText hfinish⟩
  · exact absurd h Shape.refuse_ne_ok

/-- What a record is read as comes from a finished draft. -/
theorem finish_of_ofBytes {bytes : Bytes} (h : record.shape.ofBytes bytes = .ok value) :
    ∃ draft, record.finish draft = .ok value := by
  simp only [Shape.ofBytes, shape] at h
  cases htext : record.fromText bytes.length Json.deepest bytes with
  | error e => simp [htext, Json.atEnd] at h
  | ok result =>
    obtain ⟨found, rest⟩ := result
    simp only [htext, Json.atEnd] at h
    split at h
    · obtain rfl := Except.ok.inj h
      exact finish_of_fromText htext
    · simp at h

end RecordShape

/-- Parameters that have been read bear no mark of a store. -/
theorem Parameters.store_of_ofBytes {bytes : Bytes} {p : Parameters} (h : ofBytes bytes = .ok p) :
    p.store = none := by
  obtain ⟨⟨id, action, group, value⟩, hfinish⟩ := RecordShape.finish_of_ofBytes h
  cases id with
  | none => simp [record, required, bind, Except.bind] at hfinish
  | some id =>
    cases action with
    | none => simp [record, required, bind, Except.bind] at hfinish
    | some action =>
      cases group with
      | none => simp [record, required, bind, Except.bind] at hfinish
      | some group =>
        have hnew : p = new id action group (value.getD none) := (Except.ok.inj hfinish).symm
        rw [hnew]
        rfl

/-- Parameters have a key if their action has an identifier. -/
theorem Parameters.key_isOk (p : Parameters) : (∃ key, p.key = .ok key) ↔ p.action.id ≠ [] := by
  rw [key, LookupKey.of]
  cases p.action.id <;> simp

/-- What an entry asks a catalog to hold. -/
inductive Entry.Content where
  /-- Parameters that are named by their identifier and have a key. -/
  | parameters (p : Parameters) (key : LookupKey)
  /-- A set that is named by its hash. -/
  | set (record : SetRecord)
  /-- Nothing, as the entry is passed over by every catalog. -/
  | nothing
deriving Inhabited

/-- The content of an entry; a record that cannot be read or names itself otherwise has none. -/
def Entry.content (entry : Entry) : Entry.Content :=
  match entry.kind with
  | .parameters =>
    match Parameters.ofBytes entry.data with
    | .error _ => .nothing
    | .ok p =>
      if p.id ≠ entry.id then .nothing
      else
        match p.key with
        | .error _ => .nothing
        | .ok key => .parameters p key
  | .parameterSet =>
    match SetRecord.ofBytes entry.data with
    | .error _ => .nothing
    | .ok record => if record.hash ≠ entry.id then .nothing else .set record
  | .untyped => .nothing

/-- A set record is the content of an entry that holds it and names it by its hash. -/
theorem Entry.content_eq_set {entry : Entry} {record : SetRecord} :
    entry.content = .set record ↔
      entry.kind = .parameterSet ∧ SetRecord.ofBytes entry.data = .ok record ∧
        record.hash = entry.id := by
  unfold Entry.content
  cases entry.kind with
  | parameters =>
    cases Parameters.ofBytes entry.data with
    | error e => simp
    | ok p =>
      by_cases hid : p.id = entry.id
      · cases hkey : p.key <;> simp [hid, hkey]
      · simp [hid]
  | parameterSet =>
    cases SetRecord.ofBytes entry.data with
    | error e => simp
    | ok read =>
      by_cases hid : read.hash = entry.id
      · simp only [hid, ne_eq, not_true_eq_false, if_false, Entry.Content.set.injEq,
          Except.ok.injEq, true_and]
        exact ⟨fun h => ⟨h, h ▸ hid⟩, fun h => h.1⟩
      · simp only [ne_eq, hid, not_false_eq_true, if_true, Except.ok.injEq, true_and]
        constructor
        · intro h
          simp at h
        · rintro ⟨rfl, hown⟩
          exact absurd hown hid
  | untyped => simp

/-- Parameters are the content of an entry that holds their record and names it as they do. -/
theorem Entry.content_eq_parameters {entry : Entry} {p : Parameters} {key : LookupKey} :
    entry.content = .parameters p key ↔
      entry.kind = .parameters ∧ Parameters.ofBytes entry.data = .ok p ∧ p.id = entry.id ∧
        p.key = .ok key := by
  unfold Entry.content
  cases entry.kind with
  | parameters =>
    cases hread : Parameters.ofBytes entry.data with
    | error e => simp
    | ok read =>
      by_cases hid : read.id = entry.id
      · cases hkey : read.key with
        | error e =>
          simp only [hid, ne_eq, not_true_eq_false, if_false, hkey]
          constructor
          · intro h
            simp at h
          · rintro ⟨-, h, -, hown⟩
            rw [← Except.ok.inj h, hkey] at hown
            simp at hown
        | ok found =>
          simp only [hid, ne_eq, not_true_eq_false, if_false, hkey]
          constructor
          · intro h
            obtain ⟨rfl, rfl⟩ := Entry.Content.parameters.inj h
            exact ⟨trivial, rfl, hid, hkey⟩
          · rintro ⟨-, h, -, hown⟩
            obtain rfl := Except.ok.inj h
            rw [Except.ok.inj (hkey.symm.trans hown)]
      · simp only [ne_eq, hid, not_false_eq_true, if_true]
        constructor
        · intro h
          simp at h
        · rintro ⟨-, h, hown, -⟩
          exact absurd (Except.ok.inj h ▸ hown) hid
  | parameterSet =>
    cases SetRecord.ofBytes entry.data with
    | error e => simp
    | ok record => by_cases hid : record.hash = entry.id <;> simp [hid]
  | untyped => simp

/-- The parameters in an entry have the identifier of the entry and the key that is given. -/
theorem Entry.named_of_content {entry : Entry} {p : Parameters} {key : LookupKey}
    (h : entry.content = .parameters p key) : p.id = entry.id ∧ p.key = .ok key :=
  (content_eq_parameters.mp h).2.2

theorem Entry.store_of_content {entry : Entry} {p : Parameters} {key : LookupKey}
    (h : entry.content = .parameters p key) : p.store = none :=
  Parameters.store_of_ofBytes (content_eq_parameters.mp h).2.1

/-- The content of the record of parameters that can be read back. -/
theorem Entry.content_parameters {id data : Bytes} {p : Parameters} {key : LookupKey}
    (hread : Parameters.ofBytes data = .ok p) (hid : p.id = id) (hkey : p.key = .ok key) :
    Entry.content ⟨.parameters, id, data⟩ = .parameters p key :=
  content_eq_parameters.mpr ⟨rfl, hread, hid, hkey⟩

/-- Parameters of one key, told apart by their identifiers. -/
def Parameters.sample (id : UInt8) : Parameters := .new [id] ⟨"", [0x41], "", "", []⟩ ⟨[], []⟩ none

/-- Whether a reading came to `sample id`, which no equation can be evaluated for: the values of
parameters have no decidable equality. -/
def Parameters.isSample (id : UInt8) : Except Json.ReadError Parameters → Bool
  | .ok ⟨found, ⟨kind, action, name, description, []⟩, ⟨hash, []⟩, none, none⟩ =>
    found == [id] && kind == "" && action == [0x41] && name == "" && description == "" && hash == []
  | _ => false

theorem Parameters.eq_sample {id : UInt8} {reading : Except Json.ReadError Parameters}
    (h : isSample id reading = true) : reading = .ok (sample id) := by
  unfold isSample at h
  split at h
  · simp only [Bool.and_eq_true, beq_iff_eq] at h
    obtain ⟨⟨⟨⟨⟨rfl, rfl⟩, rfl⟩, rfl⟩, rfl⟩, rfl⟩ := h
    rfl
  · contradiction

theorem Parameters.readable_sample_one : ofBytes (sample 1).toBytes = .ok (sample 1) :=
  eq_sample (by decide +kernel)

theorem Parameters.readable_sample_two : ofBytes (sample 2).toBytes = .ok (sample 2) :=
  eq_sample (by decide +kernel)

namespace Catalog

/-- Holds the content of an entry if it has a place. -/
def hold (catalog : Catalog) : Entry.Content → Catalog
  | .parameters p key => if catalog.hasRoom p.id key then catalog.insert key p else catalog
  | .set record =>
    if (catalog.set? record.hash).isSome then catalog
    else
      match ParameterSet.restore record catalog.get? with
      | .error _ => catalog
      | .ok set => { catalog with sets := catalog.sets.insert set.hash set }
  | .nothing => catalog

theorem hasRoom_iff {catalog : Catalog} {id : Bytes} {key : LookupKey} :
    catalog.hasRoom id key = true ↔ catalog.get? id = none ∧ catalog.ofKey? key = none := by
  simp [hasRoom]

theorem save_of_hasRoom {catalog : Catalog} {p : Parameters} {key : LookupKey}
    (hkey : p.key = .ok key) (h : catalog.hasRoom p.id key = true) :
    catalog.save p = (.ok true, catalog.insert key p) := by
  obtain ⟨hid, hnone⟩ := hasRoom_iff.mp h
  have hfree : catalog.byId.contains p.id = false := by
    simpa [Table.contains, get?] using hid
  simp [save, hkey, hnone, hfree]

theorem restore_eq_ok {record : SetRecord} {lookup : Bytes → Option Parameters}
    {set : ParameterSet} :
    ParameterSet.restore record lookup = .ok set ↔
      ∃ members, ParameterSet.restoreMembers lookup record.members = .ok members ∧
        set = ⟨record.hash, members, none⟩ := by
  unfold ParameterSet.restore
  cases ParameterSet.restoreMembers lookup record.members with
  | error e => simp [Except.map]
  | ok members => simp [Except.map, eq_comm]

theorem hash_of_restore {record : SetRecord} {lookup : Bytes → Option Parameters}
    {set : ParameterSet} (h : ParameterSet.restore record lookup = .ok set) :
    set.hash = record.hash := by
  obtain ⟨members, -, rfl⟩ := restore_eq_ok.mp h
  rfl

/-- Taking an entry in is holding its content, and never fails. -/
theorem apply_eq (catalog : Catalog) (entry : Entry) :
    ∃ events, catalog.apply entry = ⟨.ok (), catalog.hold entry.content, events⟩ := by
  obtain ⟨kind, id, data⟩ := entry
  cases kind with
  | untyped => exact ⟨_, rfl⟩
  | parameters =>
    simp only [apply, applyParameters, Entry.content]
    cases hread : Parameters.ofBytes data with
    | error e => exact ⟨_, rfl⟩
    | ok p =>
      by_cases hid : p.id = id
      · subst hid
        cases hkey : p.key with
        | error e => simp [hkey, hold]
        | ok key =>
          by_cases hroom : catalog.hasRoom p.id key = true
          · simp [hkey, hold, hroom, save_of_hasRoom hkey hroom, Except.map]
          · simp [hkey, hold, hroom]
      · simp [hid, hold]
  | parameterSet =>
    simp only [apply, applySet, Entry.content]
    cases hread : SetRecord.ofBytes data with
    | error e => exact ⟨_, rfl⟩
    | ok record =>
      by_cases hid : record.hash = id
      · subst hid
        by_cases hknown : (catalog.set? record.hash).isSome = true
        · simp [hold, hknown]
        · cases hset : ParameterSet.restore record catalog.get? with
          | error e => simp [hold, hknown, hset]
          | ok set =>
            have hfree : catalog.sets.contains set.hash = false := by
              rw [hash_of_restore hset]
              simpa [Table.contains, set?] using hknown
            simp [hold, hknown, hset, Outcome.done, saveSet, hfree]
      · simp [hid, hold]

/-- The catalog after entries have been taken in. -/
def after (catalog : Catalog) (entries : List Entry) : Catalog := (catalog.replay entries).state

@[simp] theorem after_nil (catalog : Catalog) : catalog.after [] = catalog := rfl

@[simp] theorem after_cons (catalog : Catalog) (entry : Entry) (rest : List Entry) :
    catalog.after (entry :: rest) = (catalog.hold entry.content).after rest := by
  obtain ⟨events, happly⟩ := apply_eq catalog entry
  simp [after, replay, happly, Outcome.andThen, Outcome.reporting]

theorem after_append (catalog : Catalog) (xs ys : List Entry) :
    catalog.after (xs ++ ys) = (catalog.after xs).after ys := by
  induction xs generalizing catalog with
  | nil => rfl
  | cons entry rest ih => simp [ih]

/-- What holding contents keeps holds of what entries lead to. -/
theorem holds_after {P : Catalog → Prop}
    (hhold : ∀ {catalog : Catalog} (entry : Entry), P catalog → P (catalog.hold entry.content))
    {catalog : Catalog} (h : P catalog) (entries : List Entry) : P (catalog.after entries) := by
  induction entries generalizing catalog with
  | nil => exact h
  | cons entry rest ih =>
    rw [after_cons]
    exact ih (hhold entry h)

/-- A replay always comes to its end. -/
theorem result_replay (catalog : Catalog) (entries : List Entry) :
    (catalog.replay entries).result = .ok () := by
  induction entries generalizing catalog with
  | nil => rfl
  | cons entry rest ih =>
    obtain ⟨events, happly⟩ := apply_eq catalog entry
    simp [replay, happly, Outcome.andThen, Outcome.reporting, ih]

/-! ### Lookups -/

theorem get?_insert (catalog : Catalog) (key : LookupKey) (p : Parameters) (id : Bytes) :
    (catalog.insert key p).get? id = if id = p.id then some p else catalog.get? id := by
  simp [get?, insert, Table.find?_insert]

theorem boundId_insert (catalog : Catalog) (key : LookupKey) (p : Parameters) (other : LookupKey) :
    (catalog.insert key p).idOfKey.find? other =
      if other = key then some p.id else catalog.idOfKey.find? other := by
  simp [insert, Table.find?_insert]

/-- Every answer of a catalog is one of another catalog too. -/
structure Extends (before after : Catalog) : Prop where
  get? : ∀ {id p}, before.get? id = some p → after.get? id = some p
  ofKey? : ∀ {key p}, before.ofKey? key = some p → after.ofKey? key = some p
  set? : ∀ {hash set}, before.set? hash = some set → after.set? hash = some set

theorem Extends.refl (catalog : Catalog) : Extends catalog catalog := ⟨id, id, id⟩

theorem Extends.trans {a b c : Catalog} (hab : Extends a b) (hbc : Extends b c) : Extends a c :=
  ⟨fun h => hbc.get? (hab.get? h), fun h => hbc.ofKey? (hab.ofKey? h),
    fun h => hbc.set? (hab.set? h)⟩

theorem ofKey?_eq_some {catalog : Catalog} {key : LookupKey} {p : Parameters} :
    catalog.ofKey? key = some p ↔
      ∃ id, catalog.idOfKey.find? key = some id ∧ catalog.get? id = some p := by
  simp [Catalog.ofKey?, Option.bind_eq_some_iff, Catalog.get?]

/-- A key leads to the parameters that have been put under it. -/
theorem ofKey?_insert_self (catalog : Catalog) (key : LookupKey) (p : Parameters) :
    (catalog.insert key p).ofKey? key = some p := by
  refine ofKey?_eq_some.mpr ⟨p.id, ?_, ?_⟩
  · rw [boundId_insert, if_pos rfl]
  · rw [get?_insert, if_pos rfl]

theorem find_of_key {p : Parameters} {key : LookupKey} (catalog : Catalog)
    (hkey : p.key = .ok key) : catalog.find p.action p.group = .ok (catalog.ofKey? key) := by
  rw [Parameters.key] at hkey
  rw [find, hkey]
  rfl

theorem extends_insert {catalog : Catalog} {key : LookupKey} {p : Parameters}
    (h : catalog.hasRoom p.id key = true) : Extends catalog (catalog.insert key p) := by
  obtain ⟨hid, hnone⟩ := hasRoom_iff.mp h
  have hget : ∀ {id q}, catalog.get? id = some q → (catalog.insert key p).get? id = some q := by
    intro id q hq
    have hne : id ≠ p.id := by
      rintro rfl
      simp [hid] at hq
    rw [get?_insert, if_neg hne, hq]
  refine ⟨hget, fun {other q} hq => ?_, fun hset => hset⟩
  have hne : other ≠ key := by
    rintro rfl
    simp [hnone] at hq
  obtain ⟨id, hbound, hheld⟩ := ofKey?_eq_some.mp hq
  refine ofKey?_eq_some.mpr ⟨id, ?_, hget hheld⟩
  rw [boundId_insert, if_neg hne, hbound]

theorem extends_hold (catalog : Catalog) (content : Entry.Content) :
    Extends catalog (catalog.hold content) := by
  cases content with
  | parameters p key =>
    simp only [hold]
    split
    · next hroom => exact extends_insert hroom
    · exact .refl _
  | set record =>
    simp only [hold]
    split
    · exact .refl _
    · next hknown =>
      split
      · exact .refl _
      · next set hset =>
        refine ⟨id, id, fun {hash found} hfound => ?_⟩
        have hne : hash ≠ set.hash := by
          rintro rfl
          rw [hash_of_restore hset] at hfound
          simp [hfound] at hknown
        simpa [set?, Table.find?_insert, hne] using hfound
  | nothing => exact .refl _

/-- Taking entries in changes no answer. -/
theorem extends_after (catalog : Catalog) (entries : List Entry) :
    Extends catalog (catalog.after entries) := by
  induction entries generalizing catalog with
  | nil => exact .refl _
  | cons entry rest ih =>
    rw [after_cons]
    exact (extends_hold catalog entry.content).trans (ih _)

/-! ### Identifiers and keys -/

/-- The identifiers and the keys lead to the same objects, each under its own identifier and
key. -/
structure Coherent (catalog : Catalog) : Prop where
  held : ∀ {id p}, catalog.get? id = some p →
    p.id = id ∧ ∃ key, p.key = .ok key ∧ catalog.idOfKey.find? key = some id
  bound : ∀ {key id}, catalog.idOfKey.find? key = some id →
    ∃ p, catalog.get? id = some p ∧ p.key = .ok key

theorem coherent_new (config : Json.Members) : Coherent (new config) := by
  constructor
  · intro id p h
    simp [get?, new] at h
  · intro key id h
    simp [new] at h

/-- In a coherent catalog a key leads to the object that has it. -/
theorem Coherent.ofKey?_eq_some_iff {catalog : Catalog} (h : Coherent catalog) {key : LookupKey}
    {p : Parameters} :
    catalog.ofKey? key = some p ↔ catalog.get? p.id = some p ∧ p.key = .ok key := by
  constructor
  · intro hp
    obtain ⟨id, hbound, hheld⟩ := ofKey?_eq_some.mp hp
    obtain ⟨q, hq, hkey⟩ := h.bound hbound
    obtain rfl : p = q := Option.some.inj (hheld.symm.trans hq)
    exact ⟨(h.held hheld).1.symm ▸ hheld, hkey⟩
  · rintro ⟨hheld, hkey⟩
    obtain ⟨-, other, hother, hbound⟩ := h.held hheld
    obtain rfl : key = other := Except.ok.inj (hkey.symm.trans hother)
    exact ofKey?_eq_some.mpr ⟨p.id, hbound, hheld⟩

theorem Coherent.insert {catalog : Catalog} (h : Coherent catalog) {key : LookupKey}
    {p : Parameters} (hkey : p.key = .ok key) (hroom : catalog.hasRoom p.id key = true) :
    Coherent (catalog.insert key p) := by
  obtain ⟨hid, hnone⟩ := hasRoom_iff.mp hroom
  constructor
  · intro id q hq
    rw [get?_insert] at hq
    by_cases heq : id = p.id
    · rw [if_pos heq, Option.some.injEq] at hq
      subst hq
      exact ⟨heq.symm, key, hkey, by rw [boundId_insert, if_pos rfl, heq]⟩
    · rw [if_neg heq] at hq
      obtain ⟨hown, other, hother, hbound⟩ := h.held hq
      have hne : other ≠ key := by
        rintro rfl
        have hleads := h.ofKey?_eq_some_iff.mpr ⟨hown.symm ▸ hq, hother⟩
        simp [hnone] at hleads
      exact ⟨hown, other, hother, by rw [boundId_insert, if_neg hne, hbound]⟩
  · intro other id hbound
    rw [boundId_insert] at hbound
    by_cases heq : other = key
    · rw [if_pos heq, Option.some.injEq] at hbound
      exact ⟨p, by rw [get?_insert, if_pos hbound.symm], heq ▸ hkey⟩
    · rw [if_neg heq] at hbound
      obtain ⟨q, hq, hqkey⟩ := h.bound hbound
      exact ⟨q, (extends_insert hroom).get? hq, hqkey⟩

theorem Coherent.hold {catalog : Catalog} (h : Coherent catalog) {content : Entry.Content}
    (hkey : ∀ {p key}, content = .parameters p key → p.key = .ok key) :
    Coherent (catalog.hold content) := by
  cases content with
  | parameters p key =>
    simp only [Catalog.hold]
    split
    · next hroom => exact h.insert (hkey rfl) hroom
    · exact h
  | set record =>
    simp only [Catalog.hold]
    split
    · exact h
    · split
      · exact h
      · exact ⟨h.held, h.bound⟩
  | nothing => exact h

theorem Coherent.after {catalog : Catalog} (h : Coherent catalog) (entries : List Entry) :
    Coherent (catalog.after entries) :=
  holds_after (fun _ h => h.hold fun hcontent => (Entry.named_of_content hcontent).2) h entries

/-! ### What has become of a record -/

/-- After parameters have been taken in, their identifier or their key is taken. -/
theorem taken_of_mem {catalog : Catalog} {entries : List Entry} {entry : Entry} {p : Parameters}
    {key : LookupKey} (hmem : entry ∈ entries) (hcontent : entry.content = .parameters p key) :
    (catalog.after entries).hasRoom p.id key = false := by
  obtain ⟨front, back, rfl⟩ := List.append_of_mem hmem
  rw [after_append, after_cons, hcontent, hold]
  by_cases hroom : (catalog.after front).hasRoom p.id key = true
  · have hheld : ((catalog.after front).insert key p).get? p.id = some p := by
      rw [get?_insert, if_pos rfl]
    rw [if_pos hroom]
    simp [hasRoom, (extends_after _ back).get? hheld]
  · rw [if_neg hroom]
    cases hid : (catalog.after front).get? p.id with
    | some q => simp [hasRoom, (extends_after _ back).get? hid]
    | none =>
      cases hkey : (catalog.after front).ofKey? key with
      | some q => simp [hasRoom, (extends_after _ back).ofKey? hkey]
      | none => exact absurd (hasRoom_iff.mpr ⟨hid, hkey⟩) hroom

theorem get?_hold {catalog : Catalog} {content : Entry.Content} {id : Bytes} {q : Parameters}
    (h : (catalog.hold content).get? id = some q) :
    catalog.get? id = some q ∨
      q.id = id ∧ ∃ key, content = .parameters q key ∧ catalog.hasRoom q.id key = true := by
  cases content with
  | parameters p key =>
    simp only [hold] at h
    split at h
    · next hroom =>
      rw [get?_insert] at h
      split at h
      · next hid =>
        obtain rfl : p = q := Option.some.inj h
        exact .inr ⟨hid.symm, key, rfl, hroom⟩
      · exact .inl h
    · exact .inl h
  | set record =>
    simp only [hold] at h
    split at h
    · exact .inl h
    · split at h <;> exact .inl h
  | nothing => exact .inl h

/-- What a catalog holds was placed by an entry for which there was room, if it was not held
before. -/
theorem placed_of_get?_after {catalog : Catalog} {entries : List Entry} {id : Bytes}
    {q : Parameters} (h : (catalog.after entries).get? id = some q) :
    catalog.get? id = some q ∨ q.id = id ∧ ∃ front entry back key,
      entries = front ++ entry :: back ∧ entry.content = .parameters q key ∧
        (catalog.after front).hasRoom q.id key = true := by
  induction entries generalizing catalog with
  | nil => exact .inl h
  | cons entry rest ih =>
    rw [after_cons] at h
    rcases ih h with hbefore | ⟨hid, front, found, back, key, rfl, hcontent, hroom⟩
    · rcases get?_hold hbefore with hbefore | ⟨hid, key, hcontent, hroom⟩
      · exact .inl hbefore
      · exact .inr ⟨hid, [], entry, rest, key, rfl, hcontent, hroom⟩
    · refine .inr ⟨hid, entry :: front, found, back, key, rfl, hcontent, ?_⟩
      rwa [after_cons]

/-- What a catalog holds comes from an entry that was taken in, if it was not held before. -/
theorem mem_of_get?_after {catalog : Catalog} {entries : List Entry} {id : Bytes} {q : Parameters}
    (h : (catalog.after entries).get? id = some q) :
    catalog.get? id = some q ∨
      ∃ entry ∈ entries, entry.id = id ∧ ∃ key, entry.content = .parameters q key := by
  rcases placed_of_get?_after h with hbefore | ⟨hid, front, entry, back, key, rfl, hcontent, -⟩
  · exact .inl hbefore
  · have hown := (Entry.named_of_content hcontent).1
    exact .inr ⟨entry, by simp, hown.symm.trans hid, key, hcontent⟩

theorem set?_hold {catalog : Catalog} {content : Entry.Content} {hash : Bytes} {set : ParameterSet}
    (h : (catalog.hold content).set? hash = some set) :
    catalog.set? hash = some set ∨
      set.hash = hash ∧ catalog.set? hash = none ∧
        ∃ record, content = .set record ∧
          ParameterSet.restore record catalog.get? = .ok set := by
  cases content with
  | parameters p key =>
    simp only [hold] at h
    split at h <;> exact .inl h
  | set record =>
    simp only [hold] at h
    split at h
    · exact .inl h
    · next hfree =>
      split at h
      · exact .inl h
      · next found hrestore =>
        simp only [set?, Table.find?_insert] at h
        split at h
        · next hhash =>
          obtain rfl : found = set := Option.some.inj h
          rw [← hash_of_restore hrestore, ← hhash] at hfree
          exact .inr ⟨hhash.symm, by simpa using hfree, record, rfl, hrestore⟩
        · exact .inl h
  | nothing => exact .inl h

/-- A set that a catalog holds was restored when nothing was held under its hash, if it was not held
before. -/
theorem placed_of_set?_after {catalog : Catalog} {entries : List Entry} {hash : Bytes}
    {set : ParameterSet} (h : (catalog.after entries).set? hash = some set) :
    catalog.set? hash = some set ∨ set.hash = hash ∧ ∃ front entry back record,
      entries = front ++ entry :: back ∧ entry.content = .set record ∧
        (catalog.after front).set? hash = none ∧
        ParameterSet.restore record (catalog.after front).get? = .ok set := by
  induction entries generalizing catalog with
  | nil => exact .inl h
  | cons entry rest ih =>
    rw [after_cons] at h
    rcases ih h with hbefore | ⟨hhash, front, found, back, record, rfl, hcontent, hfree, hrestore⟩
    · rcases set?_hold hbefore with hbefore | ⟨hhash, hfree, record, hcontent, hrestore⟩
      · exact .inl hbefore
      · exact .inr ⟨hhash, [], entry, rest, record, rfl, hcontent, hfree, hrestore⟩
    · refine .inr ⟨hhash, entry :: front, found, back, record, rfl, hcontent, ?_, ?_⟩
      · rwa [after_cons]
      · rwa [after_cons]

/-! ### The marks of stores -/

/-- Nothing that is held bears the mark of a store. -/
structure Unmarked (catalog : Catalog) : Prop where
  get? : ∀ {id p}, catalog.get? id = some p → p.store = none
  set? : ∀ {hash set}, catalog.set? hash = some set → set.store = none

theorem unmarked_new (config : Json.Members) : Unmarked (new config) := by
  constructor
  · intro id p h
    simp [Catalog.get?, new] at h
  · intro hash set h
    simp [Catalog.set?, new] at h

theorem Unmarked.hold {catalog : Catalog} (h : Unmarked catalog) (entry : Entry) :
    Unmarked (catalog.hold entry.content) := by
  cases hcontent : entry.content with
  | parameters p key =>
    simp only [Catalog.hold]
    split
    · refine ⟨fun {id q} hq => ?_, h.set?⟩
      rw [get?_insert] at hq
      split at hq
      · exact Option.some.inj hq ▸ Entry.store_of_content hcontent
      · exact h.get? hq
    · exact h
  | set record =>
    simp only [Catalog.hold]
    split
    · exact h
    · split
      · exact h
      · next set hset =>
        refine ⟨h.get?, fun {hash found} hfound => ?_⟩
        simp only [Catalog.set?, Table.find?_insert] at hfound
        split at hfound
        · obtain ⟨members, -, rfl⟩ := restore_eq_ok.mp hset
          obtain rfl := Option.some.inj hfound
          rfl
        · exact h.set? hfound
  | nothing => exact h

theorem Unmarked.after {catalog : Catalog} (h : Unmarked catalog) (entries : List Entry) :
    Unmarked (catalog.after entries) :=
  holds_after (fun entry h => h.hold entry) h entries

/-! ### The configuration -/

/-- What a catalog holds does not depend on the configuration it was made with. -/
theorem hold_config (catalog : Catalog) (config : Json.Members) (content : Entry.Content) :
    { catalog with config := config }.hold content =
      { catalog.hold content with config := config } := by
  cases content with
  | parameters p key =>
    simp only [hold]
    have hroom : { catalog with config := config }.hasRoom p.id key = catalog.hasRoom p.id key :=
      rfl
    rw [hroom]
    split <;> rfl
  | set record =>
    simp only [hold]
    have hknown : { catalog with config := config }.set? record.hash = catalog.set? record.hash :=
      rfl
    have hget : { catalog with config := config }.get? = catalog.get? := rfl
    rw [hknown, hget]
    split
    · rfl
    · split <;> rfl
  | nothing => rfl

theorem after_config (catalog : Catalog) (config : Json.Members) (entries : List Entry) :
    { catalog with config := config }.after entries =
      { catalog.after entries with config := config } := by
  induction entries generalizing catalog with
  | nil => rfl
  | cons entry rest ih => rw [after_cons, after_cons, hold_config, ih]

theorem after_new (config : Json.Members) (entries : List Entry) :
    (new config).after entries = { (new []).after entries with config := config } :=
  after_config (new []) config entries

end Catalog
end ParameterLog
