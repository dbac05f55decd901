/-
Module: ParameterLog.Proofs.CatalogChanges
Purpose: what a catalog answers after any saves and deletes.
Main exports: Catalog.Change, Catalog.change, Catalog.changed, Catalog.Anchored,
  Catalog.one_per_key, Catalog.Truthful, Catalog.truthful_iff
-/
import Mathlib.Tactic.ByContra
import ParameterLog.Proofs.CatalogReplay

/-!
Two tables have to agree: the objects by identifier and the identifiers by key. Whatever is saved
and deleted, an object that is held has its own identifier and a key, and its key leads to it
(`Anchored`), so no two objects have one key (`one_per_key`).

The other direction does not hold of itself. A delete goes by the key of the object that it is
given, and if the object that it removes has another key, that key stays bound to the identifier.
Once something is saved under this identifier, the old key leads to it, whatever key it has. So a
catalog answers keys truthfully (`Truthful`) as long as nothing is saved under an identifier to
which another key is still bound, and it goes on doing so whatever is saved next exactly if every
delete was given the key of the object that it removed (`truthful_iff`).
-/

namespace ParameterLog

namespace Catalog

/-- A change of what a catalog holds. -/
inductive Change where
  | save (p : Parameters)
  | saveSet (set : ParameterSet)
  | delete (p : Parameters)
  | deleteSet (hash : Bytes)
deriving Repr, Inhabited

/-- Makes a change; says whether anything was added or removed. -/
def change (catalog : Catalog) : Change → Except StoreError Bool × Catalog
  | .save p => catalog.save p
  | .saveSet set => (.ok (catalog.saveSet set).1, (catalog.saveSet set).2)
  | .delete p => catalog.delete p
  | .deleteSet hash => (.ok (catalog.deleteSet hash).1, (catalog.deleteSet hash).2)

/-- The catalog after changes, one after the other. -/
def changed (catalog : Catalog) (changes : List Change) : Catalog :=
  changes.foldl (fun catalog change => (catalog.change change).2) catalog

@[simp] theorem changed_nil (catalog : Catalog) : catalog.changed [] = catalog := rfl

theorem changed_append (catalog : Catalog) (xs ys : List Change) :
    catalog.changed (xs ++ ys) = (catalog.changed xs).changed ys :=
  List.foldl_append

@[simp] theorem changed_concat (catalog : Catalog) (changes : List Change) (last : Change) :
    catalog.changed (changes ++ [last]) = ((catalog.changed changes).change last).2 := by
  rw [changed_append]
  rfl

variable {catalog : Catalog}

/-! ### What one change does -/

/-- A save either finds a place or changes nothing. -/
theorem save_cases (catalog : Catalog) (p : Parameters) :
    (∃ key, p.key = .ok key ∧ catalog.hasRoom p.id key = true ∧
      catalog.save p = (.ok true, catalog.insert key p)) ∨
    ((catalog.save p).1 ≠ .ok true ∧ (catalog.save p).2 = catalog) := by
  cases hkey : p.key with
  | error e =>
    right
    simp [save, hkey]
  | ok key =>
    by_cases hroom : catalog.hasRoom p.id key = true
    · exact .inl ⟨key, rfl, hroom, save_of_hasRoom hkey hroom⟩
    · right
      rw [hasRoom_iff] at hroom
      cases hheld : catalog.ofKey? key with
      | some existing =>
        simp only [save, hkey, hheld]
        split <;> simp
      | none =>
        have hid : catalog.byId.contains p.id = true := by
          rw [Table.contains, Option.isSome_iff_ne_none]
          exact fun hnone => hroom ⟨hnone, hheld⟩
        simp [save, hkey, hheld, hid]

/-- A save is refused as a duplicate if its key leads to an object. -/
theorem leads_of_duplicateKey {p : Parameters} {text : String}
    (h : (catalog.save p).1 = .error (.duplicateKey text)) :
    ∃ key existing, p.key = .ok key ∧ catalog.ofKey? key = some existing := by
  cases hkey : p.key with
  | error e =>
    have hmissing : e = .missingId "action" := by
      rw [Parameters.key, LookupKey.of] at hkey
      split at hkey
      · exact (Except.error.inj hkey).symm
      · contradiction
    simp [save, hkey, hmissing] at h
  | ok key =>
    cases hheld : catalog.ofKey? key with
    | some existing => exact ⟨key, existing, rfl, hheld⟩
    | none =>
      simp only [save, hkey, hheld] at h
      split at h <;> simp at h

theorem byId_delete {p : Parameters} {key : LookupKey} (hkey : p.key = .ok key) :
    (catalog.delete p).2.byId = catalog.byId.erase p.id := by
  simp only [delete, hkey, withoutId, freeKey]
  split <;> rfl

theorem sets_delete (catalog : Catalog) (p : Parameters) :
    (catalog.delete p).2.sets = catalog.sets := by
  cases hkey : p.key with
  | error e => rw [delete, hkey]
  | ok key =>
    simp only [delete, hkey, withoutId, freeKey]
    split <;> rfl

theorem get?_delete {p : Parameters} {key : LookupKey} (hkey : p.key = .ok key) (id : Bytes) :
    (catalog.delete p).2.get? id = if id = p.id then none else catalog.get? id := by
  rw [get?, byId_delete hkey, Table.find?_erase]
  rfl

theorem boundId_delete {p : Parameters} {key : LookupKey} (hkey : p.key = .ok key)
    (other : LookupKey) :
    (catalog.delete p).2.idOfKey.find? other =
      if other = key ∧ catalog.idOfKey.find? key = some p.id then none
      else catalog.idOfKey.find? other := by
  simp only [delete, hkey, withoutId, freeKey]
  by_cases hbound : catalog.idOfKey.find? key = some p.id
  · simp [hbound, Table.find?_erase]
  · simp [hbound]

theorem delete_of_keyless {p : Parameters} {e : StoreError} (hkey : p.key = .error e) :
    catalog.delete p = (.error e, catalog) := by
  simp [delete, hkey]

/-! ### One object a key -/

/-- Every object that is held has its own identifier and a key, and the key is bound to it. -/
structure Anchored (catalog : Catalog) : Prop where
  held : ∀ {id p}, catalog.get? id = some p →
    p.id = id ∧ ∃ key, p.key = .ok key ∧ catalog.idOfKey.find? key = some id

theorem Coherent.anchored (h : Coherent catalog) : Anchored catalog := ⟨h.held⟩

namespace Anchored

theorem ofKey?_eq (h : Anchored catalog) {id : Bytes} {p : Parameters}
    (hheld : catalog.get? id = some p) :
    ∃ key, p.key = .ok key ∧ catalog.ofKey? key = some p := by
  obtain ⟨-, key, hkey, hbound⟩ := h.held hheld
  exact ⟨key, hkey, ofKey?_eq_some.mpr ⟨id, hbound, hheld⟩⟩

theorem insert (h : Anchored catalog) {key : LookupKey} {p : Parameters} (hkey : p.key = .ok key)
    (hroom : catalog.hasRoom p.id key = true) : Anchored (catalog.insert key p) := by
  obtain ⟨-, hnone⟩ := hasRoom_iff.mp hroom
  constructor
  intro id q hq
  rw [get?_insert] at hq
  split at hq
  · next heq =>
    obtain rfl := Option.some.inj hq
    exact ⟨heq.symm, key, hkey, by rw [boundId_insert, if_pos rfl, heq]⟩
  · obtain ⟨hown, other, hother, hbound⟩ := h.held hq
    refine ⟨hown, other, hother, ?_⟩
    have hne : other ≠ key := by
      rintro rfl
      rw [ofKey?_eq_some.mpr ⟨id, hbound, hq⟩] at hnone
      contradiction
    rw [boundId_insert, if_neg hne, hbound]

/-- A delete frees no key of an object that stays. -/
theorem delete (h : Anchored catalog) (p : Parameters) : Anchored (catalog.delete p).2 := by
  cases hkey : p.key with
  | error e => rwa [delete_of_keyless hkey]
  | ok key =>
    constructor
    intro id q hq
    rw [get?_delete hkey] at hq
    split at hq
    · contradiction
    · next hne =>
      obtain ⟨hown, other, hother, hbound⟩ := h.held hq
      refine ⟨hown, other, hother, ?_⟩
      rw [boundId_delete hkey, if_neg, hbound]
      rintro ⟨rfl, hfreed⟩
      exact hne (Option.some.inj (hbound.symm.trans hfreed))

theorem change (h : Anchored catalog) (change : Change) : Anchored (catalog.change change).2 := by
  cases change with
  | save p =>
    rcases save_cases catalog p with ⟨key, hkey, hroom, heq⟩ | ⟨-, heq⟩
    · rw [Catalog.change, heq]
      exact h.insert hkey hroom
    · rwa [Catalog.change, heq]
  | saveSet set =>
    simp only [Catalog.change, saveSet]
    split <;> exact ⟨h.held⟩
  | delete p => exact h.delete p
  | deleteSet hash => exact ⟨h.held⟩

theorem changed (h : Anchored catalog) (changes : List Change) :
    Anchored (catalog.changed changes) := by
  induction changes generalizing catalog with
  | nil => exact h
  | cons first rest ih => exact ih (h.change first)

end Anchored

/-- The lookups and listings of two catalogs have the same answers. -/
structure AnswersAs (after before : Catalog) : Prop where
  get? : after.get? = before.get?
  ofKey? : after.ofKey? = before.ofKey?
  find : after.find = before.find
  set? : after.set? = before.set?
  allParameters : after.allParameters = before.allParameters
  allSets : after.allSets = before.allSets

theorem answersAs_of_eq {before after : Catalog} (hbyId : after.byId = before.byId)
    (hsets : after.sets = before.sets) (hkeys : ∀ key, after.ofKey? key = before.ofKey? key) :
    AnswersAs after before := by
  have hofKey : after.ofKey? = before.ofKey? := funext hkeys
  constructor
  · funext id
    rw [get?, get?, hbyId]
  · exact hofKey
  · funext action group
    rw [find, find, hofKey]
  · funext hash
    rw [set?, set?, hsets]
  · rw [allParameters, allParameters, hbyId]
  · rw [allSets, allSets, hsets]

/-- A delete that finds no object may free a key, but one that leads nowhere. -/
theorem answersAs_delete {p : Parameters} {key : LookupKey} (hkey : p.key = .ok key)
    (hnone : catalog.get? p.id = none) : AnswersAs (catalog.delete p).2 catalog := by
  have hget (id : Bytes) : (catalog.delete p).2.get? id = catalog.get? id := by
    rw [get?_delete hkey]
    split
    · next heq => rw [heq, hnone]
    · rfl
  apply answersAs_of_eq
  · rw [byId_delete hkey, Table.erase_of_find?_eq_none hnone]
  · exact sets_delete catalog p
  · intro other
    rw [ofKey?, ofKey?, boundId_delete hkey]
    split
    · next hfreed =>
      obtain ⟨rfl, hfreed⟩ := hfreed
      rw [hfreed]
      exact hnone.symm
    · exact congrArg _ (funext hget)

/-- A change that neither adds nor removes anything has no effect on any answer. -/
theorem answersAs_of_refused {change : Change} (h : (catalog.change change).1 ≠ .ok true) :
    AnswersAs (catalog.change change).2 catalog := by
  have hself : AnswersAs catalog catalog := answersAs_of_eq rfl rfl fun _ => rfl
  cases change with
  | save p =>
    rcases save_cases catalog p with ⟨key, -, -, heq⟩ | ⟨-, heq⟩
    · rw [Catalog.change, heq] at h
      contradiction
    · rwa [Catalog.change, heq]
  | saveSet set =>
    simp only [Catalog.change, saveSet] at h ⊢
    split at h
    · next hknown => rwa [if_pos hknown]
    · contradiction
  | delete p =>
    cases hkey : p.key with
    | error e => rwa [Catalog.change, delete_of_keyless hkey]
    | ok key =>
      apply answersAs_delete hkey
      simpa [Catalog.change, delete, hkey, Table.contains, get?] using h
  | deleteSet hash =>
    have hnone : catalog.sets.find? hash = none := by
      simpa [Catalog.change, deleteSet, Table.contains] using h
    have hsets : (catalog.change (.deleteSet hash)).2.sets = catalog.sets :=
      Table.erase_of_find?_eq_none hnone
    exact answersAs_of_eq rfl hsets fun _ => rfl

/-- After any changes, what is held under an identifier has this identifier and a key that leads to
it, no two objects have one key, and a change that is refused or finds nothing to do leaves every
answer as it was. -/
theorem one_per_key (config : Json.Members) (changes : List Change) :
    (∀ id p, ((new config).changed changes).get? id = some p →
      p.id = id ∧ ∃ key, p.key = .ok key ∧ ((new config).changed changes).ofKey? key = some p) ∧
    (∀ id other p q, ((new config).changed changes).get? id = some p →
      ((new config).changed changes).get? other = some q → p.key = q.key → id = other) ∧
    ∀ change, (((new config).changed changes).change change).1 ≠ .ok true →
      AnswersAs (((new config).changed changes).change change).2
        ((new config).changed changes) := by
  have hanchored := (coherent_new config).anchored.changed changes
  refine ⟨fun id p hp => ⟨(hanchored.held hp).1, hanchored.ofKey?_eq hp⟩, ?_,
    fun change => answersAs_of_refused⟩
  intro id other p q hp hq hsame
  obtain ⟨-, key, hkey, hbound⟩ := hanchored.held hp
  obtain ⟨-, key', hkey', hbound'⟩ := hanchored.held hq
  obtain rfl : key = key' := Except.ok.inj (hkey.symm.trans (hsame.trans hkey'))
  exact Option.some.inj (hbound.symm.trans hbound')

/-! ### Keys that lead astray -/

/-- A key never leads to an object of another key, and no object is refused for a key that no other
object has. -/
structure Truthful (catalog : Catalog) : Prop where
  found : ∀ {action group p}, catalog.find action group = .ok (some p) →
    p.key = LookupKey.of action group ∧ p.validFor action group = true
  refused : ∀ {p text}, (catalog.save p).1 = .error (.duplicateKey text) →
    ∃ id q, catalog.get? id = some q ∧ q.key = p.key

/-- The keys that are bound are keys of parameters. -/
def Keyed (catalog : Catalog) : Prop :=
  ∀ key id, catalog.idOfKey.find? key = some id → ∃ p : Parameters, p.key = .ok key

/-- Where a key leads, there is an object with this key. -/
def LeadsRight (catalog : Catalog) : Prop :=
  ∀ key p, catalog.ofKey? key = some p → p.key = .ok key

theorem validFor_of_key {p : Parameters} {action : Action} {group : ParameterGroup}
    {key : LookupKey} (hp : p.key = .ok key) (hown : LookupKey.of action group = .ok key) :
    p.validFor action group = true := by
  rw [Parameters.key, LookupKey.of] at hp
  rw [LookupKey.of] at hown
  split at hp
  · contradiction
  · split at hown
    · contradiction
    · obtain rfl := Except.ok.inj hp
      obtain ⟨hid, hconfig, hgroup⟩ := LookupKey.mk.inj (Except.ok.inj hown)
      simp [Parameters.validFor, hid, hconfig, hgroup]

theorem LeadsRight.truthful (h : LeadsRight catalog) : Truthful catalog := by
  constructor
  · intro action group p hfind
    cases hkey : LookupKey.of action group with
    | error e =>
      rw [find, hkey] at hfind
      contradiction
    | ok key =>
      rw [find, hkey] at hfind
      have hown := h _ _ (Except.ok.inj hfind)
      exact ⟨hown, validFor_of_key hown hkey⟩
  · intro p text hrefused
    obtain ⟨key, existing, hkey, hleads⟩ := leads_of_duplicateKey hrefused
    obtain ⟨id, -, hheld⟩ := ofKey?_eq_some.mp hleads
    exact ⟨id, existing, hheld, (h _ _ hleads).trans hkey.symm⟩

theorem Truthful.leadsRight (h : Truthful catalog) (hkeyed : Keyed catalog) :
    LeadsRight catalog := by
  intro key p hleads
  obtain ⟨id, hbound, -⟩ := ofKey?_eq_some.mp hleads
  obtain ⟨owner, howner⟩ := hkeyed _ _ hbound
  have hfind : catalog.find owner.action owner.group = .ok (some p) := by
    rw [Parameters.key] at howner
    rw [find, howner, ← hleads]
    rfl
  exact (h.found hfind).1.trans howner

theorem Coherent.leadsRight (h : Coherent catalog) : LeadsRight catalog :=
  fun _ _ hleads => (h.ofKey?_eq_some_iff.mp hleads).2

/-- A key that is bound to an identifier leads to whatever is saved under it. -/
theorem ofKey?_insert_of_bound {p : Parameters} {key other : LookupKey} (hne : other ≠ key)
    (hbound : catalog.idOfKey.find? other = some p.id) :
    (catalog.insert key p).ofKey? other = some p := by
  apply ofKey?_eq_some.mpr
  refine ⟨p.id, ?_, ?_⟩
  · rw [boundId_insert, if_neg hne, hbound]
  · rw [get?_insert, if_pos rfl]

theorem Keyed.change (h : Keyed catalog) (change : Change) : Keyed (catalog.change change).2 := by
  intro other id hbound
  cases change with
  | save p =>
    rcases save_cases catalog p with ⟨key, hkey, -, heq⟩ | ⟨-, heq⟩
    · rw [Catalog.change, heq, boundId_insert] at hbound
      split at hbound
      · next hsame => exact ⟨p, hsame ▸ hkey⟩
      · exact h _ _ hbound
    · rw [Catalog.change, heq] at hbound
      exact h _ _ hbound
  | saveSet set =>
    simp only [Catalog.change, saveSet] at hbound
    split at hbound <;> exact h _ _ hbound
  | delete p =>
    cases hkey : p.key with
    | error e =>
      rw [Catalog.change, delete_of_keyless hkey] at hbound
      exact h _ _ hbound
    | ok key =>
      rw [Catalog.change, boundId_delete hkey] at hbound
      split at hbound
      · contradiction
      · exact h _ _ hbound
  | deleteSet hash => exact h _ _ hbound

/-- A change keeps keys from leading astray, unless it saves something under an identifier to which
another key is bound. -/
theorem LeadsRight.change (h : LeadsRight catalog) {change : Change}
    (hclean : ∀ p key, change = .save p → (catalog.save p).1 = .ok true →
      catalog.idOfKey.find? key = some p.id → p.key = .ok key) :
    LeadsRight (catalog.change change).2 := by
  intro other q hleads
  cases change with
  | save p =>
    rcases save_cases catalog p with ⟨key, hkey, hroom, heq⟩ | ⟨-, heq⟩
    · rw [Catalog.change, heq] at hleads
      obtain ⟨id, hbound, hheld⟩ := ofKey?_eq_some.mp hleads
      rw [boundId_insert] at hbound
      rw [get?_insert] at hheld
      split at hbound
      · next hsame =>
        rw [if_pos (Option.some.inj hbound).symm] at hheld
        obtain rfl := Option.some.inj hheld
        exact hsame ▸ hkey
      · split at hheld
        · next hid =>
          obtain rfl := Option.some.inj hheld
          exact hclean p other rfl (by rw [heq]) (hid ▸ hbound)
        · exact h _ _ (ofKey?_eq_some.mpr ⟨id, hbound, hheld⟩)
    · rw [Catalog.change, heq] at hleads
      exact h _ _ hleads
  | saveSet set =>
    simp only [Catalog.change, saveSet] at hleads
    split at hleads <;> exact h _ _ hleads
  | delete p =>
    cases hkey : p.key with
    | error e =>
      rw [Catalog.change, delete_of_keyless hkey] at hleads
      exact h _ _ hleads
    | ok key =>
      obtain ⟨id, hbound, hheld⟩ := ofKey?_eq_some.mp hleads
      rw [Catalog.change, boundId_delete hkey] at hbound
      rw [Catalog.change, get?_delete hkey] at hheld
      split at hbound
      · contradiction
      · split at hheld
        · contradiction
        · exact h _ _ (ofKey?_eq_some.mpr ⟨id, hbound, hheld⟩)
  | deleteSet hash => exact h _ _ hleads

/-- Identifiers and keys stay in step through saves, and through deletes that are given the key of
the object that they remove. -/
theorem Coherent.change (h : Coherent catalog) {change : Change}
    (hfitting : ∀ p key held, change = .delete p → p.key = .ok key →
      catalog.get? p.id = some held → held.key = .ok key) :
    Coherent (catalog.change change).2 := by
  cases change with
  | save p =>
    rcases save_cases catalog p with ⟨key, hkey, hroom, heq⟩ | ⟨-, heq⟩
    · rw [Catalog.change, heq]
      exact h.insert hkey hroom
    · rwa [Catalog.change, heq]
  | saveSet set =>
    simp only [Catalog.change, saveSet]
    split <;> exact ⟨h.held, h.bound⟩
  | delete p =>
    refine ⟨(h.anchored.delete p).held, fun {other id} hbound => ?_⟩
    cases hkey : p.key with
    | error e =>
      rw [Catalog.change, delete_of_keyless hkey] at hbound ⊢
      exact h.bound hbound
    | ok key =>
      rw [Catalog.change, boundId_delete hkey] at hbound
      rw [Catalog.change, get?_delete hkey]
      split at hbound
      · contradiction
      · next hkept =>
        obtain ⟨q, hq, hown⟩ := h.bound hbound
        refine ⟨q, ?_, hown⟩
        rw [if_neg, hq]
        rintro rfl
        -- The object that goes has the key of the delete, which was freed.
        have hsame := hfitting p key q rfl hkey hq
        obtain rfl : other = key := Except.ok.inj (hown.symm.trans hsame)
        exact hkept ⟨rfl, hbound⟩
  | deleteSet hash => exact ⟨h.held, h.bound⟩

/-- What a new catalog satisfies and each change of a run keeps holds all along the run. -/
theorem holds_along {P : Catalog → Prop} {changes : List Change} (hstart : P catalog)
    (hstep : ∀ before last, before ++ [last] <+: changes → P (catalog.changed before) →
      P ((catalog.changed before).change last).2) :
    ∀ before, before <+: changes → P (catalog.changed before) :=
  holds_along_foldl hstart hstep

theorem keyed_changed (config : Json.Members) (changes : List Change) :
    Keyed ((new config).changed changes) := by
  have hnew : Keyed (new config) := by
    intro key id hbound
    contradiction
  exact holds_along (P := Keyed) hnew (fun _ last _ h => h.change last) changes List.prefix_rfl

/-- There are always parameters whose key is not bound. -/
theorem exists_unbound (catalog : Catalog) (id : Bytes) :
    ∃ (q : Parameters) (key : LookupKey), q.id = id ∧ q.key = .ok key ∧
      catalog.idOfKey.find? key = none := by
  -- A group hash that is longer than all those of bound keys together.
  let hash := (catalog.idOfKey.bindings.map (·.1.groupHash)).flatten ++ [0]
  refine ⟨.new id ⟨"", [0], "", "", []⟩ ⟨hash, []⟩ none, ⟨[0], contentHash [], hash⟩, rfl, rfl, ?_⟩
  rw [Table.find?, Option.map_eq_none_iff, List.find?_eq_none]
  intro binding hbinding hsame
  have hgroup : binding.1.groupHash = hash := congrArg LookupKey.groupHash (of_decide_eq_true hsame)
  have hshort : binding.1.groupHash.length ≤
      (catalog.idOfKey.bindings.map (·.1.groupHash)).flatten.length := by
    apply List.Sublist.length_le
    apply List.sublist_flatten_of_mem
    exact List.mem_map.mpr ⟨binding, hbinding, rfl⟩
  rw [hgroup, List.length_append] at hshort
  exact absurd hshort (by simp)

/-- A delete with another key than that of the object that it removes leaves a key behind that the
next save can lead astray. -/
theorem exists_astray (h : Anchored catalog) {p held : Parameters} {key : LookupKey}
    (hkey : p.key = .ok key) (hheld : catalog.get? p.id = some held) (hother : held.key ≠ .ok key) :
    ∃ q, ¬ LeadsRight ((catalog.delete p).2.save q).2 := by
  obtain ⟨-, stale, hstale, hbound⟩ := h.held hheld
  have hstaleKey : stale ≠ key := by
    rintro rfl
    exact hother hstale
  have hkept : (catalog.delete p).2.idOfKey.find? stale = some p.id := by
    rw [boundId_delete hkey, if_neg fun hfreed => hstaleKey hfreed.1, hbound]
  obtain ⟨q, fresh, hid, hfresh, hfree⟩ := exists_unbound (catalog.delete p).2 p.id
  have hne : stale ≠ fresh := by
    rintro rfl
    rw [hkept] at hfree
    contradiction
  have hroom : (catalog.delete p).2.hasRoom q.id fresh = true := by
    rw [hasRoom_iff, hid, get?_delete hkey, if_pos rfl, ofKey?, hfree]
    exact ⟨rfl, rfl⟩
  refine ⟨q, fun hleads => hne ?_⟩
  rw [save_of_hasRoom hfresh hroom] at hleads
  have hastray := hleads _ _ (ofKey?_insert_of_bound hne (hid ▸ hkept))
  exact Except.ok.inj (hastray.symm.trans hfresh)

/-- When a catalog answers truthfully. It does so all along a run exactly if nothing is saved in the
run under an identifier to which another key is still bound. It does so all along a run whatever is
saved next exactly if each delete of the run is given the key of the object that it removes. -/
theorem truthful_iff (config : Json.Members) (changes : List Change) :
    ((∀ before, before <+: changes → Truthful ((new config).changed before)) ↔
      ∀ before p key, before ++ [.save p] <+: changes →
        (((new config).changed before).save p).1 = .ok true →
        ((new config).changed before).idOfKey.find? key = some p.id → p.key = .ok key) ∧
    ((∀ before q, before <+: changes → Truthful ((new config).changed (before ++ [.save q]))) ↔
      ∀ before p key held, before ++ [.delete p] <+: changes → p.key = .ok key →
        ((new config).changed before).get? p.id = some held → held.key = .ok key) := by
  have hnew := coherent_new config
  refine ⟨⟨fun htruthful before p key hinitial hsaved hbound => ?_, fun hclean => ?_⟩,
    ⟨fun htruthful before p key held hinitial hkey hheld => ?_,
      fun hfitting before q hinitial => ?_⟩⟩
  · have hleads := (htruthful _ hinitial).leadsRight (keyed_changed config _)
    rw [changed_concat, change] at hleads
    rcases save_cases ((new config).changed before) p with ⟨own, hown, -, heq⟩ | ⟨hnot, -⟩
    · rw [heq] at hleads
      by_cases hsame : key = own
      · exact hsame ▸ hown
      · exact hleads _ _ (ofKey?_insert_of_bound hsame hbound)
    · exact absurd hsaved hnot
  · intro before hinitial
    apply LeadsRight.truthful
    refine holds_along (P := LeadsRight) hnew.leadsRight (fun front last hfront h => ?_) before
      hinitial
    apply h.change
    rintro p key rfl
    exact hclean front p key hfront
  · by_contra hother
    obtain ⟨q, hastray⟩ := exists_astray (hnew.anchored.changed before) hkey hheld hother
    have hleads := (htruthful _ q hinitial).leadsRight (keyed_changed config _)
    rw [changed_concat, changed_concat] at hleads
    exact hastray hleads
  · have hcoherent : Coherent ((new config).changed before) := by
      refine holds_along hnew (fun front last hfront h => ?_) before hinitial
      apply h.change
      rintro p key held rfl
      exact hfitting front p key held hfront
    rw [changed_concat]
    apply (hcoherent.change _).leadsRight.truthful
    intro p key held heq
    contradiction

/-- A save, a delete by other parameters, and a save of these. -/
def replacing (p q : Parameters) : List Change := [.save p, .delete q, .save q]

/-- If the two have one identifier, the key of the first leads to the second. -/
theorem leads_to_second (config : Json.Members) {p q : Parameters} {key other : LookupKey}
    (hp : p.key = .ok key) (hq : q.key = .ok other) (hid : q.id = p.id) (hne : key ≠ other) :
    ((new config).changed (replacing p q)).ofKey? key = some q ∧
      ∀ id found, ((new config).changed (replacing p q)).get? id = some found → found = q := by
  have hfirst : (new config).save p = (.ok true, (new config).insert key p) :=
    save_of_hasRoom hp rfl
  have hkept : (((new config).insert key p).delete q).2.idOfKey.find? key = some q.id := by
    rw [boundId_delete hq, if_neg fun hfreed => hne hfreed.1, boundId_insert, if_pos rfl, hid]
  have hgone (id : Bytes) : (((new config).insert key p).delete q).2.get? id = none := by
    rw [get?_delete hq, get?_insert, hid]
    split
    · rfl
    · rfl
  have hfree : (((new config).insert key p).delete q).2.idOfKey.find? other = none := by
    rw [boundId_delete hq, boundId_insert, if_neg hne.symm]
    split
    · rfl
    · rfl
  have hroom : (((new config).insert key p).delete q).2.hasRoom q.id other = true := by
    rw [hasRoom_iff, ofKey?, hfree]
    exact ⟨hgone _, rfl⟩
  have hlast : (new config).changed (replacing p q) =
      (((new config).insert key p).delete q).2.insert other q := by
    simp only [changed, replacing, List.foldl_cons, List.foldl_nil, change, hfirst,
      save_of_hasRoom hq hroom]
  rw [hlast]
  refine ⟨ofKey?_insert_of_bound hne hkept, fun id found hfound => ?_⟩
  rw [get?_insert, hgone] at hfound
  split at hfound
  · exact (Option.some.inj hfound).symm
  · contradiction

/-- The parameters `Parameters.sample id` for another group. -/
def strayed (id : UInt8) : Parameters := { Parameters.sample id with group := ⟨[1], []⟩ }

/-- A key leads to parameters that have another one, and others that have it are refused although no
object does. -/
theorem other_key_answered :
    ((new []).changed (replacing (.sample 1) (strayed 1))).find (Parameters.sample 1).action
        (Parameters.sample 1).group = .ok (some (strayed 1)) ∧
      (strayed 1).key ≠ LookupKey.of (Parameters.sample 1).action (Parameters.sample 1).group ∧
      (strayed 1).validFor (Parameters.sample 1).action (Parameters.sample 1).group = false ∧
      (∃ text, (((new []).changed (replacing (.sample 1) (strayed 1))).save (.sample 2)).1 =
        .error (.duplicateKey text)) ∧
      ∀ id q, ((new []).changed (replacing (.sample 1) (strayed 1))).get? id = some q →
        q.key ≠ (Parameters.sample 2).key := by
  have hsample (id : UInt8) :
      (Parameters.sample id).key = .ok ⟨[0x41], contentHash [], []⟩ := rfl
  have hstrayed : (strayed 1).key = .ok ⟨[0x41], contentHash [], [1]⟩ := rfl
  have hother (id : UInt8) : (strayed 1).key ≠ (Parameters.sample id).key := by
    rw [hstrayed, hsample]
    simp
  obtain ⟨hleads, hheld⟩ := leads_to_second [] (hsample 1) hstrayed rfl (by simp)
  refine ⟨?_, hother 1, ?_, ⟨LookupKey.text ⟨[0x41], contentHash [], []⟩, ?_⟩, fun id q hq => ?_⟩
  · have hkey : LookupKey.of (Parameters.sample 1).action (Parameters.sample 1).group =
        .ok ⟨[0x41], contentHash [], []⟩ := rfl
    rw [find, hkey, Except.map, hleads]
  · simp [Parameters.validFor, strayed, Parameters.sample, Parameters.new]
  · rw [save, hsample 2]
    simp only [hleads]
    rw [if_neg]
    simp [strayed, Parameters.sample, Parameters.new]
  · rw [hheld id q hq]
    exact hother 2

end Catalog
end ParameterLog
