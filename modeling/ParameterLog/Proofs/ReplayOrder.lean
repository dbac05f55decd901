/-
Module: ParameterLog.Proofs.ReplayOrder
Purpose: when the order in which entries are taken in makes a difference.
Main exports: Catalog.Alike, Catalog.Contested, Catalog.alike_swap_iff, Catalog.ofEntries,
  Catalog.alike_exchange_iff, Catalog.alike_partition
-/
import Mathlib.Data.List.Perm.Subperm
import ParameterLog.Proofs.CatalogReplay

/-!
Two entries that are taken in one after the other can be taken in the other way round unless they
contest something (`Contested`): a place, which the one that comes first gets, or the last member
that a set waits for. That is exact (`alike_swap_iff`). Moving some entries behind others is a
series of such exchanges, so it changes no answer as long as none of the pairs that change places
contests anything after some of the rest (`alike_partition`).
-/

namespace ParameterLog

namespace Catalog

open ParameterSet (restore restoreMembers)

/-- Two catalogs hold the same objects. -/
structure Alike (a b : Catalog) : Prop where
  get? : ∀ id, a.get? id = b.get? id
  set? : ∀ hash, a.set? hash = b.set? hash

namespace Alike

variable {a b c : Catalog}

theorem refl (a : Catalog) : Alike a a := ⟨fun _ => rfl, fun _ => rfl⟩

theorem symm (h : Alike a b) : Alike b a :=
  ⟨fun id => (h.get? id).symm, fun hash => (h.set? hash).symm⟩

theorem trans (hab : Alike a b) (hbc : Alike b c) : Alike a c :=
  ⟨fun id => (hab.get? id).trans (hbc.get? id), fun hash => (hab.set? hash).trans (hbc.set? hash)⟩

/-- The keys lead to the same objects too. -/
theorem ofKey? (h : Alike a b) (ha : Coherent a) (hb : Coherent b) (key : LookupKey) :
    a.ofKey? key = b.ofKey? key := by
  apply Option.ext
  intro p
  rw [ha.ofKey?_eq_some_iff, hb.ofKey?_eq_some_iff, h.get?]

theorem hasRoom (h : Alike a b) (ha : Coherent a) (hb : Coherent b) (id : Bytes)
    (key : LookupKey) : a.hasRoom id key = b.hasRoom id key := by
  rw [Catalog.hasRoom, Catalog.hasRoom, h.get?, h.ofKey? ha hb]

theorem hold (h : Alike a b) (ha : Coherent a) (hb : Coherent b) (content : Entry.Content) :
    Alike (a.hold content) (b.hold content) := by
  cases content with
  | parameters p key =>
    simp only [Catalog.hold, h.hasRoom ha hb]
    split
    · exact ⟨fun id => by rw [get?_insert, get?_insert, h.get?], h.set?⟩
    · exact h
  | set record =>
    have hlookup : a.get? = b.get? := funext h.get?
    simp only [Catalog.hold, h.set?, hlookup]
    split
    · exact h
    · split
      · exact h
      · refine ⟨h.get?, fun hash => ?_⟩
        have hbefore := h.set? hash
        simp only [Catalog.set?] at hbefore
        simp only [Catalog.set?, Table.find?_insert, hbefore]
  | nothing => exact h

theorem after (h : Alike a b) (ha : Coherent a) (hb : Coherent b) (entries : List Entry) :
    Alike (a.after entries) (b.after entries) := by
  induction entries generalizing a b with
  | nil => exact h
  | cons entry rest ih =>
    have hkey : ∀ {p key}, entry.content = .parameters p key → p.key = .ok key :=
      fun hcontent => (Entry.named_of_content hcontent).2
    rw [after_cons, after_cons]
    exact ih (h.hold ha hb entry.content) (ha.hold hkey) (hb.hold hkey)

end Alike

/-! ### What two entries contest -/

/-- Parameters get a place, and they are what a set waits for. -/
def Completes (catalog : Catalog) (p : Parameters) (key : LookupKey) (record : SetRecord) : Prop :=
  catalog.hasRoom p.id key = true ∧ catalog.set? record.hash = none ∧
    (∀ set, restore record catalog.get? ≠ .ok set) ∧
    ∃ set, restore record (catalog.insert key p).get? = .ok set

/-- Each of two contents has a place in the catalog, but not behind the other: they are different
and go by one identifier, one key or one hash. Or one of the two can only be held behind the other:
it is a set, and the other its last member. -/
def Contested (catalog : Catalog) : Entry.Content → Entry.Content → Prop
  | .parameters p k, .parameters q l =>
    p ≠ q ∧ (p.id = q.id ∨ k = l) ∧ catalog.hasRoom p.id k = true ∧
      catalog.hasRoom q.id l = true
  | .set r, .set s =>
    r.hash = s.hash ∧ catalog.set? r.hash = none ∧
      ∃ a b, restore r catalog.get? = .ok a ∧ restore s catalog.get? = .ok b ∧ a ≠ b
  | .parameters p k, .set r => catalog.Completes p k r
  | .set r, .parameters p k => catalog.Completes p k r
  | .nothing, _ => False
  | _, .nothing => False

/-! ### Exchanging two entries -/

variable {catalog : Catalog} {p q : Parameters} {k l : LookupKey} {r s : SetRecord}

theorem ofKey?_insert (h : Coherent catalog) (hroom : catalog.hasRoom p.id k = true)
    (key : LookupKey) :
    (catalog.insert k p).ofKey? key = if key = k then some p else catalog.ofKey? key := by
  obtain ⟨hid, -⟩ := hasRoom_iff.mp hroom
  have hlookup (id : Bytes) : (catalog.insert k p).byId.find? id =
      if id = p.id then some p else catalog.byId.find? id := get?_insert catalog k p id
  rw [Catalog.ofKey?, Catalog.ofKey?, boundId_insert]
  by_cases hkey : key = k
  · rw [if_pos hkey, if_pos hkey, Option.bind_some, hlookup, if_pos rfl]
  · rw [if_neg hkey, if_neg hkey]
    cases hbound : catalog.idOfKey.find? key with
    | none => rfl
    | some id =>
      obtain ⟨held, hheld, -⟩ := h.bound hbound
      have hne : id ≠ p.id := by
        rintro rfl
        simp [hid] at hheld
      rw [Option.bind_some, Option.bind_some, hlookup, if_neg hne]

/-- Parameters have a place behind others that go by another identifier and another key. -/
theorem hasRoom_insert (h : Coherent catalog) (hp : catalog.hasRoom p.id k = true) :
    (catalog.insert k p).hasRoom q.id l = true ↔
      catalog.hasRoom q.id l = true ∧ p.id ≠ q.id ∧ k ≠ l := by
  rw [hasRoom_iff, hasRoom_iff, get?_insert, ofKey?_insert h hp]
  by_cases hid : q.id = p.id
  · simp [hid]
  · by_cases hkey : l = k
    · simp [hkey]
    · have hid' : p.id ≠ q.id := fun heq => hid heq.symm
      have hkey' : k ≠ l := fun heq => hkey heq.symm
      simp [hid, hkey, hid', hkey']

/-- What has no place keeps having none. -/
theorem hasRoom_of_extends {before after : Catalog} (h : Extends before after) {id : Bytes}
    {key : LookupKey} (hroom : after.hasRoom id key = true) : before.hasRoom id key = true := by
  obtain ⟨hid, hkey⟩ := hasRoom_iff.mp hroom
  refine hasRoom_iff.mpr ⟨?_, ?_⟩
  · cases hbefore : before.get? id with
    | none => rfl
    | some held => simp [h.get? hbefore] at hid
  · cases hbefore : before.ofKey? key with
    | none => rfl
    | some held => simp [h.ofKey? hbefore] at hkey

/-- A set that can be restored stays the same when more parameters are held. -/
theorem restore_of_extends {before after : Catalog} (h : Extends before after) {record : SetRecord}
    {set : ParameterSet} (hset : restore record before.get? = .ok set) :
    restore record after.get? = .ok set := by
  have hmembers (texts : List String) (members : List Parameters)
      (hbefore : restoreMembers before.get? texts = .ok members) :
      restoreMembers after.get? texts = .ok members := by
    induction texts generalizing members with
    | nil => exact hbefore
    | cons text rest ih =>
      simp only [restoreMembers] at hbefore ⊢
      split at hbefore
      · simp at hbefore
      · split at hbefore
        · simp at hbefore
        · next held hheld =>
          split at hbefore
          · simp at hbefore
          · next others hothers =>
            rw [h.get? hheld, ih others hothers]
            exact hbefore
  obtain ⟨members, hbefore, rfl⟩ := restore_eq_ok.mp hset
  exact restore_eq_ok.mpr ⟨members, hmembers _ _ hbefore, rfl⟩

/-- A content that changes nothing, at once and behind the other, can be exchanged. -/
theorem alike_swap_of_idle {x y : Entry.Content} (hnow : catalog.hold x = catalog)
    (hlater : (catalog.hold y).hold x = catalog.hold y) :
    Alike ((catalog.hold x).hold y) ((catalog.hold y).hold x) := by
  rw [hnow, hlater]
  exact .refl _

theorem hold_of_full (h : catalog.hasRoom p.id k ≠ true) :
    catalog.hold (.parameters p k) = catalog := by
  rw [hold, if_neg h]

/-- Parameters without a place change nothing, whatever they stand behind. -/
theorem alike_swap_of_full (h : catalog.hasRoom p.id k ≠ true) (y : Entry.Content) :
    Alike ((catalog.hold (.parameters p k)).hold y) ((catalog.hold y).hold (.parameters p k)) :=
  alike_swap_of_idle (hold_of_full h) <|
    hold_of_full fun hroom => h (hasRoom_of_extends (extends_hold catalog y) hroom)

theorem hold_of_known (h : (catalog.set? r.hash).isSome = true) :
    catalog.hold (.set r) = catalog := by
  rw [hold, if_pos h]

/-- A set whose hash is known changes nothing, whatever it stands behind. -/
theorem alike_swap_of_known (h : (catalog.set? r.hash).isSome = true) (y : Entry.Content) :
    Alike ((catalog.hold (.set r)).hold y) ((catalog.hold y).hold (.set r)) := by
  refine alike_swap_of_idle (hold_of_known h) (hold_of_known ?_)
  obtain ⟨known, hknown⟩ := Option.isSome_iff_exists.mp h
  rw [(extends_hold catalog y).set? hknown]
  rfl

/-- Parameters that both have a place can be exchanged unless only the first of them gets it. -/
theorem alike_swap_of_rooms (h : Coherent catalog) (hp : p.key = .ok k) (hq : q.key = .ok l)
    (hpRoom : catalog.hasRoom p.id k = true) (hqRoom : catalog.hasRoom q.id l = true) :
    Alike ((catalog.hold (.parameters p k)).hold (.parameters q l))
      ((catalog.hold (.parameters q l)).hold (.parameters p k)) ↔
        ¬ (p ≠ q ∧ (p.id = q.id ∨ k = l)) := by
  have hpHeld : catalog.hold (.parameters p k) = catalog.insert k p := by simp [hold, hpRoom]
  have hqHeld : catalog.hold (.parameters q l) = catalog.insert l q := by simp [hold, hqRoom]
  rw [hpHeld, hqHeld]
  by_cases hshared : p.id = q.id ∨ k = l
  · -- Only the one that comes first has a place.
    have hqBehind : (catalog.insert k p).hasRoom q.id l ≠ true := by
      rw [ne_eq, hasRoom_insert h hpRoom]
      rintro ⟨-, hid, hkey⟩
      exact hshared.elim hid hkey
    have hpBehind : (catalog.insert l q).hasRoom p.id k ≠ true := by
      rw [ne_eq, hasRoom_insert h hqRoom]
      rintro ⟨-, hid, hkey⟩
      exact hshared.elim (fun heq => hid heq.symm) fun heq => hkey heq.symm
    rw [hold, hold, if_neg hqBehind, if_neg hpBehind]
    constructor
    · rintro halike ⟨hne, -⟩
      have hid := halike.get? p.id
      rw [get?_insert, if_pos rfl, get?_insert] at hid
      split at hid
      · exact hne (Option.some.inj hid)
      · rw [(hasRoom_iff.mp hpRoom).1] at hid
        simp at hid
    · intro hnot
      have heq : p = q := by
        by_contra hne
        exact hnot ⟨hne, hshared⟩
      subst heq
      rw [Except.ok.inj (hp.symm.trans hq)]
      exact .refl _
  · have hapart : p.id ≠ q.id ∧ k ≠ l := not_or.mp hshared
    have hqBehind := (hasRoom_insert h hpRoom).mpr ⟨hqRoom, hapart⟩
    have hpBehind := (hasRoom_insert h hqRoom).mpr ⟨hpRoom, hapart.1.symm, hapart.2.symm⟩
    rw [hold, hold, if_pos hqBehind, if_pos hpBehind]
    refine ⟨fun _ hboth => hshared hboth.2, fun _ => ⟨fun id => ?_, fun _ => rfl⟩⟩
    simp only [get?_insert]
    by_cases hid : id = p.id
    · have hother : p.id ≠ q.id := hapart.1
      simp [hid, hother]
    · simp [hid]

/-- Parameters can be exchanged unless they contest a place. -/
theorem alike_swap_parameters_iff (h : Coherent catalog) (hp : p.key = .ok k)
    (hq : q.key = .ok l) :
    Alike ((catalog.hold (.parameters p k)).hold (.parameters q l))
      ((catalog.hold (.parameters q l)).hold (.parameters p k)) ↔
        ¬ catalog.Contested (.parameters p k) (.parameters q l) := by
  by_cases hpRoom : catalog.hasRoom p.id k = true
  case neg => simp [Contested, hpRoom, alike_swap_of_full hpRoom]
  by_cases hqRoom : catalog.hasRoom q.id l = true
  case neg => simp [Contested, hqRoom, (alike_swap_of_full hqRoom _).symm]
  rw [alike_swap_of_rooms h hp hq hpRoom hqRoom]
  simp [Contested, hpRoom, hqRoom]

theorem hold_of_restore {set : ParameterSet} (hfree : catalog.set? r.hash = none)
    (hset : restore r catalog.get? = .ok set) :
    catalog.hold (.set r) = { catalog with sets := catalog.sets.insert r.hash set } := by
  simp [hold, hfree, hset, hash_of_restore hset]

theorem hold_of_missing (h : ∀ set, restore r catalog.get? ≠ .ok set) :
    catalog.hold (.set r) = catalog := by
  cases hset : restore r catalog.get? with
  | error e => simp [hold, hset]
  | ok set => exact absurd hset (h set)

/-- Parameters and a set can be exchanged unless the set waits for them. -/
theorem alike_swap_mixed_iff (catalog : Catalog) (p : Parameters) (k : LookupKey)
    (r : SetRecord) :
    Alike ((catalog.hold (.parameters p k)).hold (.set r))
      ((catalog.hold (.set r)).hold (.parameters p k)) ↔
        ¬ catalog.Contested (.parameters p k) (.set r) := by
  by_cases hpRoom : catalog.hasRoom p.id k = true
  case neg => simp [Contested, Completes, hpRoom, alike_swap_of_full hpRoom]
  cases hfree : catalog.set? r.hash with
  | some known =>
    have hknown : (catalog.set? r.hash).isSome = true := by simp [hfree]
    simp [Contested, Completes, hfree, (alike_swap_of_known hknown _).symm]
  | none =>
    have hpHeld : catalog.hold (.parameters p k) = catalog.insert k p := by simp [hold, hpRoom]
    have hfree' : (catalog.insert k p).set? r.hash = none := hfree
    rw [hpHeld]
    by_cases hmissing : ∀ set, restore r catalog.get? ≠ .ok set
    · rw [hold_of_missing hmissing, hpHeld]
      by_cases hbehind : ∃ set, restore r (catalog.insert k p).get? = .ok set
      · obtain ⟨set, hset⟩ := hbehind
        refine ⟨fun halike => ?_, fun hnot => absurd ⟨hpRoom, hfree, hmissing, set, hset⟩ hnot⟩
        have hhash := halike.set? r.hash
        rw [hold_of_restore hfree' hset, hfree'] at hhash
        simp [Catalog.set?, Table.find?_insert] at hhash
      · rw [hold_of_missing (not_exists.mp hbehind)]
        exact ⟨fun _ hcontested => hbehind hcontested.2.2.2, fun _ => .refl _⟩
    · obtain ⟨set, hset⟩ := not_forall_not.mp hmissing
      have hset' := restore_of_extends (extends_insert hpRoom) hset
      have hpBehind : { catalog with sets := catalog.sets.insert r.hash set }.hasRoom p.id k =
          true := hpRoom
      rw [hold_of_restore hfree hset, hold_of_restore hfree' hset', hold, if_pos hpBehind]
      exact ⟨fun _ hcontested => hmissing hcontested.2.2.1, fun _ => .refl _⟩

theorem get?_hold_set (catalog : Catalog) (record : SetRecord) :
    (catalog.hold (.set record)).get? = catalog.get? := by
  simp only [hold]
  split
  · rfl
  · split <;> rfl

/-- A set that cannot be restored changes nothing, whatever set it stands behind. -/
theorem alike_swap_of_missing (h : ∀ set, restore r catalog.get? ≠ .ok set) (s : SetRecord) :
    Alike ((catalog.hold (.set r)).hold (.set s)) ((catalog.hold (.set s)).hold (.set r)) := by
  refine alike_swap_of_idle (hold_of_missing h) (hold_of_missing ?_)
  rw [get?_hold_set]
  exact h

/-- Sets that can both be restored can be exchanged unless only the first of them gets the hash. -/
theorem alike_swap_of_restore {a b : ParameterSet} (hrFree : catalog.set? r.hash = none)
    (hsFree : catalog.set? s.hash = none) (ha : restore r catalog.get? = .ok a)
    (hb : restore s catalog.get? = .ok b) :
    Alike ((catalog.hold (.set r)).hold (.set s)) ((catalog.hold (.set s)).hold (.set r)) ↔
      ¬ (r.hash = s.hash ∧ a ≠ b) := by
  rw [hold_of_restore hrFree ha, hold_of_restore hsFree hb]
  by_cases hhash : r.hash = s.hash
  · -- Only the one that comes first has a place.
    rw [hold_of_known (by simp [Catalog.set?, Table.find?_insert, hhash]),
      hold_of_known (by simp [Catalog.set?, Table.find?_insert, hhash])]
    constructor
    · rintro halike ⟨-, hne⟩
      have hsame := halike.set? s.hash
      simp only [Catalog.set?, Table.find?_insert, hhash, if_true] at hsame
      exact hne (Option.some.inj hsame)
    · intro hnot
      have heq : a = b := by
        by_contra hne
        exact hnot ⟨hhash, hne⟩
      rw [hhash, heq]
      exact .refl _
  · have hhash' : s.hash ≠ r.hash := fun heq => hhash heq.symm
    have hsBehind : { catalog with sets := catalog.sets.insert r.hash a }.set? s.hash = none := by
      simpa [Catalog.set?, Table.find?_insert, hhash'] using hsFree
    have hrBehind : { catalog with sets := catalog.sets.insert s.hash b }.set? r.hash = none := by
      simpa [Catalog.set?, Table.find?_insert, hhash] using hrFree
    rw [hold_of_restore hsBehind hb, hold_of_restore hrBehind ha]
    refine ⟨fun _ hboth => hhash hboth.1, fun _ => ⟨fun _ => rfl, fun hash => ?_⟩⟩
    simp only [Catalog.set?, Table.find?_insert]
    by_cases heq : hash = r.hash
    · simp [heq, hhash]
    · simp [heq]

/-- Sets can be exchanged unless they contest a hash. -/
theorem alike_swap_sets_iff :
    Alike ((catalog.hold (.set r)).hold (.set s)) ((catalog.hold (.set s)).hold (.set r)) ↔
      ¬ catalog.Contested (.set r) (.set s) := by
  cases hrFree : catalog.set? r.hash with
  | some known =>
    have hknown : (catalog.set? r.hash).isSome = true := by simp [hrFree]
    simp [Contested, hrFree, alike_swap_of_known hknown]
  | none =>
    cases hsFree : catalog.set? s.hash with
    | some known =>
      have hknown : (catalog.set? s.hash).isSome = true := by simp [hsFree]
      refine ⟨?_, fun _ => (alike_swap_of_known hknown _).symm⟩
      rintro - ⟨hhash, -⟩
      simp [hhash, hsFree] at hrFree
    | none =>
      by_cases hr : ∀ set, restore r catalog.get? ≠ .ok set
      · refine ⟨?_, fun _ => alike_swap_of_missing hr s⟩
        rintro - ⟨-, -, a, -, ha, -⟩
        exact hr a ha
      by_cases hs : ∀ set, restore s catalog.get? ≠ .ok set
      · refine ⟨?_, fun _ => (alike_swap_of_missing hs r).symm⟩
        rintro - ⟨-, -, -, b, -, hb, -⟩
        exact hs b hb
      obtain ⟨a, ha⟩ := not_forall_not.mp hr
      obtain ⟨b, hb⟩ := not_forall_not.mp hs
      rw [alike_swap_of_restore hrFree hsFree ha hb]
      simp [Contested, hrFree, ha, hb]

/-- Two entries can be exchanged unless they contest something. -/
theorem alike_swap_iff (h : Coherent catalog) (x y : Entry) :
    Alike ((catalog.hold x.content).hold y.content) ((catalog.hold y.content).hold x.content) ↔
      ¬ catalog.Contested x.content y.content := by
  cases hx : x.content with
  | parameters p k =>
    cases hy : y.content with
    | parameters q l =>
      exact alike_swap_parameters_iff h (Entry.named_of_content hx).2 (Entry.named_of_content hy).2
    | set s => exact alike_swap_mixed_iff catalog p k s
    | nothing => exact ⟨fun _ hnot => hnot, fun _ => .refl _⟩
  | set r =>
    cases hy : y.content with
    | parameters q l =>
      have hmixed := alike_swap_mixed_iff catalog q l r
      exact ⟨fun halike => hmixed.mp halike.symm, fun hnot => (hmixed.mpr hnot).symm⟩
    | set s => exact alike_swap_sets_iff
    | nothing => exact ⟨fun _ hnot => hnot, fun _ => .refl _⟩
  | nothing => exact ⟨fun _ hnot => by cases y.content <;> exact hnot, fun _ => .refl _⟩

/-! ### Moving entries behind others -/

/-- What a catalog that held nothing holds after entries have been taken in. -/
def ofEntries (entries : List Entry) : Catalog := (new []).after entries

theorem ofEntries_append (xs ys : List Entry) :
    ofEntries (xs ++ ys) = (ofEntries xs).after ys :=
  after_append (new []) xs ys

theorem coherent_ofEntries (entries : List Entry) : Coherent (ofEntries entries) :=
  (coherent_new []).after entries

theorem Alike.append {xs ys : List Entry} (h : Alike (ofEntries xs) (ofEntries ys))
    (entries : List Entry) : Alike (ofEntries (xs ++ entries)) (ofEntries (ys ++ entries)) := by
  rw [ofEntries_append, ofEntries_append]
  exact h.after (coherent_ofEntries xs) (coherent_ofEntries ys) entries

theorem alike_exchange_iff (us : List Entry) (x y : Entry) :
    Alike (ofEntries (us ++ [x, y])) (ofEntries (us ++ [y, x])) ↔
      ¬ (ofEntries us).Contested x.content y.content := by
  rw [ofEntries_append, ofEntries_append, after_cons, after_cons, after_cons, after_cons]
  exact alike_swap_iff (coherent_ofEntries us) x y

section Reordering

variable {α : Type} {entry : α → Entry} {before moved items : List α} {a : α}

/-- An item can be moved behind others if it contests nothing with any of them. -/
theorem alike_move
    (h : ∀ us b, (us ++ [a, b]).Subperm (before ++ a :: moved) → b ∈ moved →
      ¬ (ofEntries (us.map entry)).Contested (entry a).content (entry b).content) :
    Alike (ofEntries ((before ++ moved ++ [a]).map entry))
      (ofEntries ((before ++ a :: moved).map entry)) := by
  induction moved generalizing before with
  | nil => simpa using Alike.refl _
  | cons b rest ih =>
    have hrest : Alike (ofEntries ((before ++ [b] ++ rest ++ [a]).map entry))
        (ofEntries ((before ++ [b] ++ a :: rest).map entry)) := by
      refine ih fun us c husc hc => h us c ?_ (List.mem_cons_of_mem _ hc)
      have hperm : (before ++ [b] ++ a :: rest).Perm (before ++ a :: b :: rest) := by
        rw [List.append_assoc]
        exact (List.Perm.swap a b rest).append_left before
      exact husc.trans hperm.subperm
    have hpair : Alike (ofEntries (before.map entry ++ [entry b, entry a]))
        (ofEntries (before.map entry ++ [entry a, entry b])) := by
      refine ((alike_exchange_iff _ _ _).mpr (h before b ?_ List.mem_cons_self)).symm
      have hinitial : before ++ [a, b] <+: before ++ a :: b :: rest := ⟨rest, by simp⟩
      exact hinitial.sublist.subperm
    have hfirst := hpair.append (rest.map entry)
    simp only [List.map_append, List.map_cons, List.map_nil, List.append_assoc, List.cons_append,
      List.nil_append] at hrest hfirst ⊢
    exact hrest.trans hfirst

/-- The items of a kind can be moved behind all others if none of them contests anything with one
that it stood in front of. -/
theorem alike_partition (before items : List α) (entry : α → Entry) (p : α → Prop)
    [DecidablePred p]
    (h : ∀ us a b, (us ++ [a, b]).Subperm (before ++ items) → [a, b].Sublist items → p a → ¬ p b →
      ¬ (ofEntries (us.map entry)).Contested (entry a).content (entry b).content) :
    Alike (ofEntries ((before ++ items.filter (fun x => ¬ p x) ++ items.filter (fun x => p x)).map
      entry)) (ofEntries ((before ++ items).map entry)) := by
  induction items generalizing before with
  | nil => simpa using Alike.refl _
  | cons a rest ih =>
    have hrest : Alike (ofEntries ((before ++ [a] ++ rest.filter (fun x => ¬ p x) ++
        rest.filter (fun x => p x)).map entry))
        (ofEntries ((before ++ [a] ++ rest).map entry)) := by
      refine ih (before ++ [a]) fun us b c hus hbc =>
        h us b c ?_ (hbc.trans (List.sublist_cons_self a rest))
      rwa [List.append_assoc] at hus
    by_cases ha : p a
    · have hmove : Alike (ofEntries ((before ++ rest.filter (fun x => ¬ p x) ++ [a]).map entry))
          (ofEntries ((before ++ a :: rest.filter (fun x => ¬ p x)).map entry)) := by
        apply alike_move
        intro us b hus hb
        have hkept := List.filter_sublist (p := fun x => decide (¬ p x)) (l := rest)
        obtain ⟨hmem, hb⟩ := List.mem_filter.mp hb
        refine h us a b (hus.trans ?_) ?_ ha (of_decide_eq_true hb)
        · exact ((hkept.cons_cons a).append_left before).subperm
        · exact (List.singleton_sublist.mpr hmem).cons_cons a
      have hfirst := hmove.append ((rest.filter (fun x => p x)).map entry)
      simp only [List.filter_cons, ha, decide_true, decide_false, not_true_eq_false, if_true,
        Bool.false_eq_true, if_false, List.map_append, List.map_cons, List.map_nil,
        List.append_assoc, List.cons_append, List.nil_append] at hrest hfirst ⊢
      exact hfirst.trans hrest
    · simp only [List.filter_cons, ha, decide_true, decide_false, not_false_eq_true, if_true,
        Bool.false_eq_true, if_false, List.append_assoc, List.cons_append,
        List.nil_append] at hrest ⊢
      exact hrest

end Reordering

end Catalog
end ParameterLog
