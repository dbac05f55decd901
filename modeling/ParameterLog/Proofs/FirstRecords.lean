/-
Module: ParameterLog.Proofs.FirstRecords
Purpose: what a store holds that has just been opened, said of the frames of its log.
Main exports: Catalog.get?_ofEntries_iff, Catalog.set?_ofEntries_iff, Frame.HoldsParameters,
  Frame.WinsKey, Frame.HoldsSet, Frame.Gathers, Frame.WinsHash, Frame.get?_found_iff,
  Frame.set?_found_iff, FileStore.holds_winners_of_openOn
-/
import ParameterLog.Proofs.CompleteGroups
import ParameterLog.Proofs.Refinement
import ParameterLog.Proofs.ReplayOrder
import ParameterLog.Proofs.Writings

/-!
Of the records of parameters for one key, the one whose first frame comes first wins (`WinsKey`). Of
the records of sets under one hash, the first one wins that can gather its members, each from a
record that has won its key and comes before it (`WinsHash`). Groups that are incomplete or
contradict themselves, bytes that are no entry, and records that cannot be read, that name
themselves otherwise than their entries do or that have no key take no part in this.

A store that is opened on the log holds the winners and nothing else (`holds_winners_of_openOn`).
This asks that records under one identifier have one key: else a record could lose its place to one
that has its identifier and another key.
-/

namespace ParameterLog

open Outcome (Yields)

namespace Catalog

/-! ### Entries in a row -/

/-- Records under one identifier have one key. -/
def Honest (entries : List Entry) : Prop :=
  ∀ a ∈ entries, ∀ b ∈ entries, ∀ p q k l, a.content = .parameters p k →
    b.content = .parameters q l → p.id = q.id → k = l

theorem Honest.of_append {xs ys : List Entry} (h : Honest (xs ++ ys)) : Honest xs :=
  fun a ha b hb => h a (List.mem_append_left _ ha) b (List.mem_append_left _ hb)

theorem get?_new (config : Json.Members) (id : Bytes) : (new config).get? id = none := rfl

/-- What is held comes from an entry with the same parameters and their key. -/
theorem mem_of_get?_ofEntries {entries : List Entry} {id : Bytes} {p : Parameters}
    (h : (ofEntries entries).get? id = some p) :
    p.id = id ∧ ∃ entry ∈ entries, ∃ key, entry.content = .parameters p key := by
  rcases mem_of_get?_after h with hnew | ⟨entry, hentry, hid, key, hcontent⟩
  · simp [get?_new] at hnew
  · exact ⟨(Entry.named_of_content hcontent).1.trans hid, entry, hentry, key, hcontent⟩

/-- A record has room as long as none for its key has come. -/
theorem hasRoom_ofEntries_iff {front : List Entry} {entry : Entry} {p : Parameters}
    {key : LookupKey} (hcontent : entry.content = .parameters p key)
    (hhonest : Honest (front ++ [entry])) :
    (ofEntries front).hasRoom p.id key = true ↔
      ∀ earlier ∈ front, ∀ q, earlier.content ≠ .parameters q key := by
  have hself : entry ∈ front ++ [entry] := List.mem_append_right _ (List.mem_singleton_self _)
  -- Whoever has the identifier or the key has the key.
  have hkeyed {q : Parameters} {other : LookupKey} {earlier : Entry} (hmem : earlier ∈ front)
      (hother : earlier.content = .parameters q other) (hid : q.id = p.id) : other = key :=
    hhonest earlier (List.mem_append_left _ hmem) entry hself q p other key hother hcontent hid
  constructor
  · intro hroom earlier hmem q hq
    obtain ⟨hfreeId, hfreeKey⟩ := hasRoom_iff.mp hroom
    have htaken : (ofEntries front).hasRoom q.id key = false := taken_of_mem hmem hq
    cases hheld : (ofEntries front).get? q.id with
    | none => simp [hasRoom_iff.mpr ⟨hheld, hfreeKey⟩] at htaken
    | some r =>
      obtain ⟨hid, holder, hholder, other, hr⟩ := mem_of_get?_ofEntries hheld
      obtain rfl := hhonest holder (List.mem_append_left _ hholder) earlier
        (List.mem_append_left _ hmem) r q other key hr hq hid
      have hleads := (coherent_ofEntries front).ofKey?_eq_some_iff.mpr
        ⟨hid.symm ▸ hheld, (Entry.named_of_content hr).2⟩
      simp [hfreeKey] at hleads
  · intro hfirst
    refine hasRoom_iff.mpr ⟨?_, ?_⟩
    · by_contra hne
      obtain ⟨r, hr⟩ := Option.ne_none_iff_exists'.mp hne
      obtain ⟨hid, holder, hholder, other, hcontent'⟩ := mem_of_get?_ofEntries hr
      exact hfirst holder hholder r (hkeyed hholder hcontent' hid ▸ hcontent')
    · by_contra hne
      obtain ⟨r, hr⟩ := Option.ne_none_iff_exists'.mp hne
      obtain ⟨hheld, hown⟩ := (coherent_ofEntries front).ofKey?_eq_some_iff.mp hr
      obtain ⟨-, holder, hholder, other, hcontent'⟩ := mem_of_get?_ofEntries hheld
      have hsame := (Entry.named_of_content hcontent').2
      obtain rfl : other = key := Except.ok.inj (hsame.symm.trans hown)
      exact hfirst holder hholder r hcontent'

/-- The first record for a key is held, and nothing else. -/
theorem get?_ofEntries_iff {entries : List Entry} (hhonest : Honest entries) {id : Bytes}
    {p : Parameters} :
    (ofEntries entries).get? id = some p ↔ p.id = id ∧ ∃ front entry back key,
      entries = front ++ entry :: back ∧ entry.content = .parameters p key ∧
        ∀ earlier ∈ front, ∀ q, earlier.content ≠ .parameters q key := by
  have hfront {front back : List Entry} {entry : Entry} (h : entries = front ++ entry :: back) :
      Honest (front ++ [entry]) := by
    rw [h, List.append_cons] at hhonest
    exact hhonest.of_append
  constructor
  · intro h
    rcases placed_of_get?_after h with
      hnew | ⟨hid, front, entry, back, key, hsplit, hcontent, hroom⟩
    · simp [get?_new] at hnew
    · exact ⟨hid, front, entry, back, key, hsplit, hcontent,
        (hasRoom_ofEntries_iff hcontent (hfront hsplit)).mp hroom⟩
  · rintro ⟨rfl, front, entry, back, key, hsplit, hcontent, hfirst⟩
    have hroom := (hasRoom_ofEntries_iff hcontent (hfront hsplit)).mpr hfirst
    rw [hsplit, ofEntries_append, after_cons, hcontent, hold, if_pos hroom]
    refine (extends_after _ back).get? ?_
    rw [get?_insert, if_pos rfl]

/-- An entry restores a set behind others. -/
def Restores (front : List Entry) (entry : Entry) (set : ParameterSet) : Prop :=
  ∃ record, entry.content = .set record ∧
    ParameterSet.restore record (ofEntries front).get? = .ok set

/-- Once a set has been restored, one is held under its hash. -/
theorem set?_isSome_of_restores {front : List Entry} {entry : Entry} {set : ParameterSet}
    (h : Restores front entry set) (back : List Entry) :
    ∃ held, (ofEntries (front ++ entry :: back)).set? set.hash = some held ∧
      ((ofEntries front).set? set.hash = none → held = set) := by
  obtain ⟨record, hcontent, hrestore⟩ := h
  have hhash := hash_of_restore hrestore
  rw [ofEntries_append, after_cons, hcontent, hold]
  cases hknown : (ofEntries front).set? record.hash with
  | some held =>
    rw [← hhash] at hknown
    refine ⟨held, (extends_after _ back).set? hknown, fun hnone => ?_⟩
    rw [hhash, ← hhash, hknown] at hnone
    contradiction
  | none =>
    rw [hrestore]
    refine ⟨set, (extends_after _ back).set? ?_, fun _ => rfl⟩
    simp [set?, Table.find?_insert]

/-- The first set that can be restored under a hash is held, and nothing else. -/
theorem set?_ofEntries_iff {entries : List Entry} {hash : Bytes} {set : ParameterSet} :
    (ofEntries entries).set? hash = some set ↔ set.hash = hash ∧ ∃ front entry back,
      entries = front ++ entry :: back ∧ Restores front entry set ∧
        ∀ before earlier between other, front = before ++ earlier :: between →
          Restores before earlier other → other.hash ≠ hash := by
  constructor
  · intro h
    rcases placed_of_set?_after h with
      hnew | ⟨rfl, front, entry, back, record, hsplit, hcontent, hfree, hrestore⟩
    · simp [set?, new] at hnew
    · refine ⟨rfl, front, entry, back, hsplit, ⟨record, hcontent, hrestore⟩, ?_⟩
      rintro before earlier between other rfl hrestores hhash
      obtain ⟨held, hheld, -⟩ := set?_isSome_of_restores hrestores between
      rw [hhash] at hheld
      exact absurd (hheld.symm.trans hfree) (by simp)
  · rintro ⟨rfl, front, entry, back, rfl, hrestores, hfirst⟩
    obtain ⟨held, hheld, hsame⟩ := set?_isSome_of_restores hrestores back
    have hfree : (ofEntries front).set? set.hash = none := by
      by_contra hne
      obtain ⟨other, hother⟩ := Option.ne_none_iff_exists'.mp hne
      rcases placed_of_set?_after hother with
        hnew | ⟨hhash, before, earlier, between, record, hsplit, hcontent, -, hrestore⟩
      · simp [set?, new] at hnew
      · exact hfirst before earlier between other hsplit ⟨record, hcontent, hrestore⟩ hhash
    rw [hheld, hsame hfree]

end Catalog

/-! ### Groups in the order of their first frames -/

namespace Frame

open Assembly (found)
open Catalog (ofEntries Restores)

variable {frames : List Frame}

/-- A group holds a valid record of parameters: it is complete, its entry is of that kind, the
record can be read, it names itself as the entry does, and its action has an identifier. -/
def HoldsParameters (frames : List Frame) (group : Bytes) (p : Parameters) : Prop :=
  ∃ entry, HoldsEntry frames group entry ∧ entry.kind = .parameters ∧
    Parameters.ofBytes entry.data = .ok p ∧ p.id = entry.id ∧ p.action.id ≠ []

/-- The first valid record for its key. -/
def WinsKey (frames : List Frame) (group : Bytes) (p : Parameters) : Prop :=
  HoldsParameters frames group p ∧
    ∀ other q, HoldsParameters frames other q → q.key = p.key →
      firstAt frames group ≤ firstAt frames other

/-- A group holds a readable record of a set: it is complete, its entry is of that kind, the record
can be read, and its hash is the identifier of the entry. -/
def HoldsSet (frames : List Frame) (group : Bytes) (record : SetRecord) : Prop :=
  ∃ entry, HoldsEntry frames group entry ∧ entry.kind = .parameterSet ∧
    SetRecord.ofBytes entry.data = .ok record ∧ record.hash = entry.id

/-- The members of a set record are those of records that have won and come before it. -/
def Gathers (frames : List Frame) (group : Bytes) (record : SetRecord)
    (members : List Parameters) : Prop :=
  List.Forall₂ (fun text p => Bytes.ofHex text = .ok p.id ∧
    ∃ earlier, WinsKey frames earlier p ∧ firstAt frames earlier < firstAt frames group)
      record.members members

/-- The first readable record under its hash that gathers its members, with these. -/
def WinsHash (frames : List Frame) (group : Bytes) (set : ParameterSet) : Prop :=
  ∃ record, HoldsSet frames group record ∧ Gathers frames group record set.members ∧
    set.hash = record.hash ∧ set.store = none ∧
    ∀ other rival members, HoldsSet frames other rival → rival.hash = record.hash →
      Gathers frames other rival members → firstAt frames group ≤ firstAt frames other

/-- No two valid records with different keys share an identifier. -/
def HonestIds (frames : List Frame) : Prop :=
  ∀ a b p q, HoldsParameters frames a p → HoldsParameters frames b q → p.id = q.id → p.key = q.key

theorem holdsParameters_iff {group : Bytes} {p : Parameters} :
    HoldsParameters frames group p ↔
      ∃ entry key, (group, entry) ∈ found frames ∧ entry.content = .parameters p key := by
  simp only [HoldsParameters, ← p.key_isOk, Assembly.mem_found_iff, Entry.content_eq_parameters]
  constructor
  · rintro ⟨entry, hentry, hkind, hread, hid, key, hkey⟩
    exact ⟨entry, key, hentry, hkind, hread, hid, hkey⟩
  · rintro ⟨entry, key, hentry, hkind, hread, hid, hkey⟩
    exact ⟨entry, hentry, hkind, hread, hid, key, hkey⟩

theorem holdsSet_iff {group : Bytes} {record : SetRecord} :
    HoldsSet frames group record ↔
      ∃ entry, (group, entry) ∈ found frames ∧ entry.content = .set record := by
  simp only [HoldsSet, Assembly.mem_found_iff, Entry.content_eq_set]

theorem HonestIds.honest (h : HonestIds frames) :
    Catalog.Honest ((found frames).map (·.2)) := by
  intro a ha b hb p q k l hp hq hid
  obtain ⟨item, hitem, rfl⟩ := List.mem_map.mp ha
  obtain ⟨other, hother, rfl⟩ := List.mem_map.mp hb
  have hkeys := h item.1 other.1 p q (holdsParameters_iff.mpr ⟨item.2, k, hitem, hp⟩)
    (holdsParameters_iff.mpr ⟨other.2, l, hother, hq⟩) hid
  rw [(Entry.named_of_content hp).2, (Entry.named_of_content hq).2] at hkeys
  exact Except.ok.inj hkeys

/-- A group has one entry. -/
theorem entry_unique {group : Bytes} {a b : Entry} (ha : (group, a) ∈ found frames)
    (hb : (group, b) ∈ found frames) : a = b := by
  have hsame := (Assembly.mem_found ha).2.symm.trans (Assembly.mem_found hb).2
  exact Option.some.inj hsame

section Split

variable {front back : List (Bytes × Entry)} {item : Bytes × Entry}

/-- What stands before an entry in the row is what has its first frame before. -/
theorem mem_front_iff (hsplit : found frames = front ++ item :: back) {other : Bytes × Entry} :
    other ∈ front ↔ other ∈ found frames ∧ firstAt frames other.1 < firstAt frames item.1 := by
  have hsorted := Assembly.found_sorted frames
  rw [hsplit, List.pairwise_append, List.pairwise_cons] at hsorted
  obtain ⟨-, ⟨hback, -⟩, hfront⟩ := hsorted
  constructor
  · intro hother
    exact ⟨hsplit ▸ List.mem_append_left _ hother, hfront other hother item List.mem_cons_self⟩
  · rintro ⟨hother, hless⟩
    rw [hsplit] at hother
    rcases List.mem_append.mp hother with hother | hother
    · exact hother
    · rcases List.mem_cons.mp hother with rfl | hother
      · omega
      · have := hback other hother
        omega

end Split

/-- The catalog after the first entries of a log holds the winners among them. -/
theorem get?_initial_iff (hhonest : HonestIds frames) {front back : List (Bytes × Entry)}
    (hsplit : found frames = front ++ back) {id : Bytes} {p : Parameters} :
    (ofEntries (front.map (·.2))).get? id = some p ↔
      p.id = id ∧ ∃ group, WinsKey frames group p ∧ group ∈ front.map (·.1) := by
  have hinitial : Catalog.Honest (front.map (·.2)) := by
    have hall := hhonest.honest
    rw [hsplit, List.map_append] at hall
    exact hall.of_append
  rw [Catalog.get?_ofEntries_iff hinitial]
  refine and_congr_right fun _ => ⟨?_, ?_⟩
  · rintro ⟨_, entry, _, key, hrow, hcontent, hfirst⟩
    obtain ⟨before, rest, rfl, rfl, hrest⟩ := List.map_eq_append_iff.mp hrow
    obtain ⟨⟨group, _⟩, after, rfl, rfl, rfl⟩ := List.map_eq_cons_iff.mp hrest
    rw [List.append_assoc, List.cons_append] at hsplit
    have hmem : (group, _) ∈ found frames := hsplit ▸ List.mem_append_right _ List.mem_cons_self
    have hholds := holdsParameters_iff.mpr ⟨_, key, hmem, hcontent⟩
    refine ⟨group, ⟨hholds, fun other q hother hkey => ?_⟩, by simp⟩
    obtain ⟨rival, found, hrival, hq⟩ := holdsParameters_iff.mp hother
    rw [(Entry.named_of_content hq).2, (Entry.named_of_content hcontent).2] at hkey
    by_contra hless
    have hbefore := (mem_front_iff hsplit).mpr ⟨hrival, Nat.lt_of_not_le hless⟩
    refine hfirst rival (List.mem_map_of_mem hbefore) q ?_
    rw [hq, Except.ok.inj hkey]
  · rintro ⟨group, ⟨hholds, hfirst⟩, hgroup⟩
    obtain ⟨entry, key, hmem, hcontent⟩ := holdsParameters_iff.mp hholds
    obtain ⟨⟨_, own⟩, hown, rfl⟩ := List.mem_map.mp hgroup
    obtain rfl := entry_unique hmem (hsplit ▸ List.mem_append_left _ hown)
    obtain ⟨before, after, rfl⟩ := List.append_of_mem hown
    rw [List.append_assoc, List.cons_append] at hsplit
    refine ⟨before.map (·.2), entry, after.map (·.2), key, by simp, hcontent, ?_⟩
    intro earlier hearlier q hq
    obtain ⟨⟨other, _⟩, hbefore, rfl⟩ := List.mem_map.mp hearlier
    obtain ⟨hother, hless⟩ := (mem_front_iff hsplit).mp hbefore
    have hle := hfirst other q (holdsParameters_iff.mpr ⟨_, key, hother, hq⟩) (by
      rw [(Entry.named_of_content hq).2, (Entry.named_of_content hcontent).2])
    dsimp only at hle hless
    omega

/-- The catalog of a log holds the winners. -/
theorem get?_found_iff (hhonest : HonestIds frames) {id : Bytes} {p : Parameters} :
    (ofEntries ((found frames).map (·.2))).get? id = some p ↔
      p.id = id ∧ ∃ group, WinsKey frames group p := by
  rw [get?_initial_iff hhonest (List.append_nil _).symm]
  refine and_congr_right fun _ => exists_congr fun group => and_iff_left_of_imp fun hwins => ?_
  obtain ⟨entry, key, hmem, -⟩ := holdsParameters_iff.mp hwins.1
  exact List.mem_map_of_mem hmem

/-- A record behind the first entries of a log restores a set if it gathers the members. -/
theorem restores_iff (hhonest : HonestIds frames) {front back : List (Bytes × Entry)}
    {group : Bytes} {entry : Entry} (hsplit : found frames = front ++ (group, entry) :: back)
    {set : ParameterSet} :
    Restores (front.map (·.2)) entry set ↔
      ∃ record, HoldsSet frames group record ∧ Gathers frames group record set.members ∧
        set.hash = record.hash ∧ set.store = none := by
  have hmem : (group, entry) ∈ found frames :=
    hsplit ▸ List.mem_append_right _ List.mem_cons_self
  have hlookup (id : Bytes) (p : Parameters) :
      (ofEntries (front.map (·.2))).get? id = some p ↔ p.id = id ∧
        ∃ earlier, WinsKey frames earlier p ∧ firstAt frames earlier < firstAt frames group := by
    rw [get?_initial_iff hhonest hsplit]
    refine and_congr_right fun _ => exists_congr fun earlier => and_congr_right fun hwins => ?_
    obtain ⟨own, key, hown, -⟩ := holdsParameters_iff.mp hwins.1
    constructor
    · intro hin
      obtain ⟨item, hitem, rfl⟩ := List.mem_map.mp hin
      exact ((mem_front_iff hsplit).mp hitem).2
    · intro hless
      exact List.mem_map_of_mem ((mem_front_iff hsplit).mpr ⟨hown, hless⟩)
  have hgathers (record : SetRecord) (members : List Parameters) :
      ParameterSet.restoreMembers (ofEntries (front.map (·.2))).get? record.members = .ok members ↔
        Gathers frames group record members := by
    rw [ParameterSet.restoreMembers_eq_ok, Gathers]
    refine iff_of_eq (congrArg (List.Forall₂ · record.members members) ?_)
    funext text p
    simp only [hlookup, eq_iff_iff]
    constructor
    · rintro ⟨_, hhex, rfl, hearlier⟩
      exact ⟨hhex, hearlier⟩
    · rintro ⟨hhex, hearlier⟩
      exact ⟨p.id, hhex, rfl, hearlier⟩
  constructor
  · rintro ⟨record, hcontent, hrestore⟩
    obtain ⟨members, hmembers, rfl⟩ := Catalog.restore_eq_ok.mp hrestore
    exact ⟨record, holdsSet_iff.mpr ⟨entry, hmem, hcontent⟩, (hgathers _ _).mp hmembers, rfl, rfl⟩
  · rintro ⟨record, hholds, hgather, hhash, hstore⟩
    obtain ⟨own, hown, hcontent⟩ := holdsSet_iff.mp hholds
    obtain rfl := entry_unique hown hmem
    refine ⟨record, hcontent, Catalog.restore_eq_ok.mpr ⟨_, (hgathers _ _).mpr hgather, ?_⟩⟩
    rw [← hhash, ← hstore]

/-- The catalog of a log holds the sets that win. -/
theorem set?_found_iff (hhonest : HonestIds frames) {hash : Bytes} {set : ParameterSet} :
    (ofEntries ((found frames).map (·.2))).set? hash = some set ↔
      set.hash = hash ∧ ∃ group, WinsHash frames group set := by
  rw [Catalog.set?_ofEntries_iff]
  refine and_congr_right fun hhash => ⟨?_, ?_⟩
  · rintro ⟨_, entry, _, hrow, hrestores, hfirst⟩
    obtain ⟨front, rest, hsplit, rfl, hrest⟩ := List.map_eq_append_iff.mp hrow
    obtain ⟨⟨group, held⟩, back, rfl, rfl, rfl⟩ := List.map_eq_cons_iff.mp hrest
    obtain ⟨record, hholds, hgather, hown, hstore⟩ := (restores_iff hhonest hsplit).mp hrestores
    refine ⟨group, record, hholds, hgather, hown, hstore, ?_⟩
    intro other rival members hrival hsame hmembers
    obtain ⟨earlier, hearlier, hcontent⟩ := holdsSet_iff.mp hrival
    by_contra hless
    have hbefore := (mem_front_iff hsplit).mpr ⟨hearlier, Nat.lt_of_not_le hless⟩
    obtain ⟨before, between, rfl⟩ := List.append_of_mem hbefore
    have hsplit' : found frames =
        before ++ (other, earlier) :: (between ++ (group, held) :: back) := by
      rw [hsplit, List.append_assoc, List.cons_append]
    refine hfirst (before.map (·.2)) earlier (between.map (·.2)) ⟨rival.hash, members, none⟩
      (by simp) ((restores_iff hhonest hsplit').mpr ⟨rival, hrival, hmembers, rfl, rfl⟩) ?_
    rw [hsame, ← hown, hhash]
  · rintro ⟨group, record, hholds, hgather, hown, hstore, hfirst⟩
    obtain ⟨entry, hmem, hcontent⟩ := holdsSet_iff.mp hholds
    obtain ⟨front, back, hsplit⟩ := List.append_of_mem hmem
    refine ⟨front.map (·.2), entry, back.map (·.2), by simp [hsplit],
      (restores_iff hhonest hsplit).mpr ⟨record, hholds, hgather, hown, hstore⟩, ?_⟩
    intro _ _ _ other hrow hrestores hsame
    obtain ⟨before, rest, rfl, rfl, hrest⟩ := List.map_eq_append_iff.mp hrow
    obtain ⟨⟨other', earlier⟩, between, rfl, rfl, rfl⟩ := List.map_eq_cons_iff.mp hrest
    have hsplit' : found frames =
        before ++ (other', earlier) :: (between ++ (group, entry) :: back) := by
      rw [hsplit, List.append_assoc, List.cons_append]
    obtain ⟨rival, hrival, hmembers, hrivalHash, -⟩ := (restores_iff hhonest hsplit').mp hrestores
    have hle := hfirst other' rival other.members hrival (by
      rw [← hrivalHash, hsame, ← hhash, hown]) hmembers
    have hless := ((mem_front_iff hsplit).mp (List.mem_append_right _ List.mem_cons_self)).2
    dsimp only at hless
    omega

end Frame

/-! ### Listings -/

namespace Catalog

/-- The tables of objects bind their keys once. -/
structure Tidy (catalog : Catalog) : Prop where
  byId : catalog.byId.Distinct
  sets : catalog.sets.Distinct

theorem tidy_new (config : Json.Members) : Tidy (new config) :=
  ⟨Table.distinct_empty, Table.distinct_empty⟩

theorem Tidy.hold {catalog : Catalog} (h : Tidy catalog) (content : Entry.Content) :
    Tidy (catalog.hold content) := by
  cases content with
  | parameters p key =>
    simp only [Catalog.hold]
    split
    · exact ⟨h.byId.insert _ _, h.sets⟩
    · exact h
  | set record =>
    simp only [Catalog.hold]
    split
    · exact h
    · split
      · exact h
      · exact ⟨h.byId, h.sets.insert _ _⟩
  | nothing => exact h

theorem Tidy.after {catalog : Catalog} (h : Tidy catalog) (entries : List Entry) :
    Tidy (catalog.after entries) :=
  holds_after (fun _ h => h.hold _) h entries

/-- The listing of parameters has what the identifiers lead to. -/
theorem Tidy.mem_allParameters_iff {catalog : Catalog} (h : Tidy catalog) {p : Parameters} :
    p ∈ catalog.allParameters ↔ ∃ id, catalog.get? id = some p := by
  rw [allParameters, List.mem_mergeSort, h.byId.mem_values_iff]
  rfl

/-- The listing of sets has what the hashes lead to. -/
theorem Tidy.mem_allSets_iff {catalog : Catalog} (h : Tidy catalog) {set : ParameterSet} :
    set ∈ catalog.allSets ↔ ∃ hash, catalog.set? hash = some set := by
  rw [allSets, List.mem_mergeSort, h.sets.mem_values_iff]
  rfl

end Catalog

/-! ### Opening -/

namespace FileStore

open ParameterLog.Frame (Shows HonestIds WinsKey WinsHash)

variable {disk made : Disk} {path : String} {frameSize : Nat} {writable : Bool} {log : Log}
  {place : Place} {content : Bytes}

/-- A file store is opened if its log can be opened and loaded. -/
theorem openOn_of_load
    (hlog : (Log.openOn disk path frameSize writable).Yields (.ok (log, place)) made)
    (hcontent : made.content? place = some content) {id : StoreId} {config : Json.Members}
    (hload : (load id config log content).result = .ok ()) :
    (openOn disk id path frameSize config writable).Yields
      (.ok ((load id config log content).state, place)) made := by
  have hread : made.contentAt place path = .ok content := by
    rw [Disk.contentAt, hcontent]
  refine hlog.andThen ?_
  dsimp only
  rw [hread]
  dsimp only
  rw [hload]
  exact ⟨rfl, rfl⟩

/-- A file store can be opened on a log of frames, in whatever order they stand and wherever the log
ends, and holds what has won in it. -/
theorem holds_winners_of_openOn {frames : List Frame}
    (hlog : (Log.openOn disk path frameSize writable).Yields (.ok (log, place)) made)
    (hcontent : made.content? place = some content) (hshows : Shows content frames)
    (hhonest : HonestIds frames) (id : StoreId) (config : Json.Members) :
    ∃ store, (openOn disk id path frameSize config writable).Yields (.ok (store, place)) made ∧
      (∀ id p, store.catalog.get? id = some p ↔ p.id = id ∧ ∃ group, WinsKey frames group p) ∧
      (∀ key p, store.catalog.ofKey? key = some p ↔
        p.key = .ok key ∧ ∃ group, WinsKey frames group p) ∧
      (∀ hash set, store.catalog.set? hash = some set ↔
        set.hash = hash ∧ ∃ group, WinsHash frames group set) ∧
      (∀ p, p ∈ store.catalog.allParameters ↔ ∃ group, WinsKey frames group p) ∧
      ∀ set, set ∈ store.catalog.allSets ↔ ∃ group, WinsHash frames group set := by
  obtain ⟨rfl, -⟩ := Store.openOn_eq_ok hlog.result
  obtain ⟨hload, htaken, hsettings⟩ := load_opened hshows id config path frameSize writable
  refine ⟨_, openOn_of_load hlog hcontent hload, ?_⟩
  have hcatalog := htaken.catalog
  have hconfig := congrArg (·.2.1) hsettings
  dsimp only [settings] at hconfig
  rw [hconfig] at hcatalog
  rw [hcatalog]
  have hcoherent := (Catalog.coherent_new config).after ((Assembly.found frames).map (·.2))
  have htidy := (Catalog.tidy_new config).after ((Assembly.found frames).map (·.2))
  have hget (id : Bytes) (p : Parameters) :
      ((Catalog.new config).after ((Assembly.found frames).map (·.2))).get? id = some p ↔
        p.id = id ∧ ∃ group, WinsKey frames group p := by
    rw [Catalog.after_new]
    exact Frame.get?_found_iff hhonest
  have hset (hash : Bytes) (set : ParameterSet) :
      ((Catalog.new config).after ((Assembly.found frames).map (·.2))).set? hash = some set ↔
        set.hash = hash ∧ ∃ group, WinsHash frames group set := by
    rw [Catalog.after_new]
    exact Frame.set?_found_iff hhonest
  refine ⟨hget, fun key p => ?_, hset, fun p => ?_, fun set => ?_⟩
  · rw [hcoherent.ofKey?_eq_some_iff, hget]
    simp [and_comm]
  · simp only [htidy.mem_allParameters_iff, hget, exists_eq_left']
  · simp only [htidy.mem_allSets_iff, hset, exists_eq_left']

/-- The record of a saving, cut into frames of a group. -/
def rowOf (saving : Saving) (group : Bytes) (frameSize : Nat) : List Frame :=
  Writing.row ⟨.opened "log" frameSize true, saving.record, group⟩

/-- Two records for one key and a set of the first one's parameters, their frames mingled with each
other, with the beginning of a record that never ends and with a frame that announces none. -/
def mingled : List Frame :=
  let first := rowOf (.parameters (.sample 1)) [0xa1] 200
  let second := rowOf (.parameters (.sample 2)) [0xa2] 250
  first.take 1 ++ [⟨0, 0, [0xa3], [7]⟩] ++ second.take 1 ++
    (rowOf (.parameters (.sample 2)) [0xa4] 64).take 2 ++
    rowOf (.set ⟨[7], [.sample 1], none⟩) [0xa5] 64 ++ first.drop 1 ++ second.drop 1

theorem honestIds_mingled : HonestIds mingled := by
  have hgroups : Frame.groupIds mingled = [[0xa1], [0xa3], [0xa2], [0xa4], [0xa5]] := by
    decide +kernel
  have hfirst : (Saving.parameters (.sample 1)).record.frames [0xa1] 200 =
      .ok (Frame.ofGroup mingled [0xa1]) := by decide +kernel
  have hsecond : (Saving.parameters (.sample 2)).record.frames [0xa2] 250 =
      .ok (Frame.ofGroup mingled [0xa2]) := by decide +kernel
  have hset : (Saving.set ⟨[7], [.sample 1], none⟩).record.frames [0xa5] 64 =
      .ok (Frame.ofGroup mingled [0xa5]) := by decide +kernel
  have hnone : ∀ id ∈ [[0xa3], [0xa4]], ∃ frame ∈ Frame.ofGroup mingled id,
      frame.total.toNat ≠ (Frame.ofGroup mingled id).length := by decide +kernel
  have hsample {group : Bytes} {p : Parameters} (h : Frame.HoldsParameters mingled group p) :
      p = .sample 1 ∨ p = .sample 2 := by
    obtain ⟨entry, hholds, hkind, hread, -, -⟩ := h
    have hmem := Assembly.mem_groupIds_of_holdsEntry hholds
    have hmakes := hholds
    obtain ⟨bytes, hcompletes, -⟩ := hmakes
    have hincomplete : group ∉ [[0xa3], [0xa4]] := by
      intro hgroup
      obtain ⟨frame, hframe, hne⟩ := hnone group hgroup
      exact hne (hcompletes.total_eq frame hframe)
    rw [hgroups] at hmem
    simp only [List.mem_cons, List.not_mem_nil, or_false] at hmem hincomplete
    rcases hmem with rfl | rfl | rfl | rfl | rfl
    · rw [(Assembly.holdsEntry_of_row hfirst).mp hholds] at hread
      exact .inl (Except.ok.inj (hread.symm.trans Parameters.readable_sample_one))
    · simp at hincomplete
    · rw [(Assembly.holdsEntry_of_row hsecond).mp hholds] at hread
      exact .inr (Except.ok.inj (hread.symm.trans Parameters.readable_sample_two))
    · simp at hincomplete
    · rw [(Assembly.holdsEntry_of_row hset).mp hholds] at hkind
      exact absurd hkind (by decide)
  intro a b p q hp hq _
  rcases hsample hp with rfl | rfl <;> rcases hsample hq with rfl | rfl <;> rfl

theorem holds_winners_of_openOn_mingled :
    let content := Frame.bytesOf mingled ++ [1]
    let disk := (Log.openOn .empty "log" 64 true).state.replaceContent ["log"] content
    (Log.openOn disk "log" 64 true).Yields (.ok (.opened "log" 64 true, ["log"])) disk ∧
      disk.content? ["log"] = some content ∧ Shows content mingled ∧ HonestIds mingled ∧
      ∃ store, (openOn disk ⟨[1]⟩ "log" 64 [] true).Yields (.ok (store, ["log"])) disk ∧
        (∀ id p, store.catalog.get? id = some p ↔
          p.id = id ∧ ∃ group, WinsKey mingled group p) ∧
        (∀ key p, store.catalog.ofKey? key = some p ↔
          p.key = .ok key ∧ ∃ group, WinsKey mingled group p) ∧
        (∀ hash set, store.catalog.set? hash = some set ↔
          set.hash = hash ∧ ∃ group, WinsHash mingled group set) ∧
        (∀ p, p ∈ store.catalog.allParameters ↔ ∃ group, WinsKey mingled group p) ∧
        ∀ set, set ∈ store.catalog.allSets ↔ ∃ group, WinsHash mingled group set := by
  intro content disk
  have hlog : (Log.openOn disk "log" 64 true).Yields (.ok (.opened "log" 64 true, ["log"])) disk :=
    ⟨rfl, rfl⟩
  have hcontent : disk.content? ["log"] = some content := rfl
  have htorn : Frame.Torn [1] :=
    ⟨⟨0, 0, [], []⟩, by decide, by decide, by decide⟩
  have hshows : Shows content mingled := ⟨by decide +kernel, [1], htorn, rfl⟩
  exact ⟨hlog, hcontent, hshows, honestIds_mingled,
    holds_winners_of_openOn hlog hcontent hshows honestIds_mingled ⟨[1]⟩ []⟩

end FileStore
end ParameterLog
