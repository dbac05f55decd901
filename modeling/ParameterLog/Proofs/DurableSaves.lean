/-
Module: ParameterLog.Proofs.DurableSaves
Purpose: when stores that are opened later find what a store has acknowledged.
Main exports: Saving.KeepsKey, Saving.FoundBy, Saving.Durable, Saving.Unopposed,
  Saving.IsFound, Saving.isFound_of_unopposed, Saving.unopposed_of_isFound,
  LoneStore.durable_iff_unopposed, LoneStore.deleted_record_wins
-/
import ParameterLog.Proofs.CatalogChanges
import ParameterLog.Proofs.LoneStore

/-!
Deleting changes the catalog of a store and not its log, so the two part. A save is acknowledged by
the catalog of the store that saves; a store that is opened later goes by the log, where records of
what was deleted still stand, and the first one for an identifier, a key or a hash wins.

What has been acknowledged is found by all stores that are opened later, whatever the store goes on
to do, if and only if a store that is opened just before the save holds nothing that is in its way
(`Unopposed`): other parameters with the identifier or the key, or a set with the hash and other
members. The members of a set have to be there, too (`durable_iff_unopposed`). Without deletes
nothing is ever in the way.
-/

namespace ParameterLog

open ParameterLog.Frame (bytesOf groupIds)
open Assembly (found)

namespace Saving

/-- The record is read back with the key of what is saved; sets have none. -/
def KeepsKey : Saving → Prop
  | .parameters p => ∃ q, Parameters.ofBytes p.toBytes = .ok q ∧ q.key = p.key
  | .set _ => True

/-- A store finds what was saved: parameters by their identifier and by their action and group, or a
set with the members by its hash. -/
def FoundBy (alone : LoneStore) : Saving → Prop
  | .parameters p => alone.Finds p (·.id = p.id)
  | .set s => ∃ found, (alone.store.ask (.byHash s.hash) alone.content).result =
      .ok (.set (some found)) ∧ found.hash = s.hash ∧ found.ids = s.ids

/-- Whatever a store does after saving something, every store that is opened finds it. The log was
made of some frames at first and records under some groups. -/
def Durable (saving : Saving) (after : LoneStore) (base : List Frame) (used : List Bytes) : Prop :=
  ∀ later : List Store.Command, Frame.MadeUp base (used ++ later.flatMap (·.groups)) →
    ∀ opening : Opening, opening.Allowed →
      (opening.load (after.obey later).content).result = .ok () ∧
        saving.FoundBy (.opened opening (after.obey later).content)

/-- A catalog holds nothing that is in the way: what it holds under the identifier or the key of
parameters has both, and what it holds under the hash of a set has its members, or nothing is held
there and the members are. -/
def Unopposed (catalog : Catalog) : Saving → Prop
  | .parameters p => ∀ q, catalog.get? p.id = some q ∨
      catalog.find p.action p.group = .ok (some q) → q.id = p.id ∧ q.key = p.key
  | .set s => (∃ held, catalog.set? s.hash = some held ∧ held.ids = s.ids) ∨
      catalog.set? s.hash = none ∧ ∀ id ∈ s.ids, (catalog.get? id).isSome = true

/-- A catalog leads to what was saved. -/
def IsFound (catalog : Catalog) : Saving → Prop
  | .parameters p => (∃ q, catalog.get? p.id = some q ∧ q.id = p.id) ∧
      ∃ q, catalog.find p.action p.group = .ok (some q) ∧ q.id = p.id
  | .set s => ∃ found, catalog.set? s.hash = some found ∧ found.hash = s.hash ∧ found.ids = s.ids

variable {catalog : Catalog}

/-- A catalog with a place holds nothing that is in the way. -/
theorem HasPlace.unopposed {saving : Saving} (h : saving.HasPlace catalog) :
    saving.Unopposed catalog := by
  cases saving with
  | parameters p =>
    obtain ⟨-, key, hkey, hroom⟩ := h
    obtain ⟨hid, hfree⟩ := Catalog.hasRoom_iff.mp hroom
    rintro q (hq | hq)
    · rw [hid] at hq
      contradiction
    · rw [Parameters.key] at hkey
      rw [Catalog.find, hkey] at hq
      have hheld : catalog.ofKey? key = some q := Except.ok.inj hq
      rw [hfree] at hheld
      contradiction
  | set s => exact .inr h

end Saving

namespace Catalog

variable {front : List Entry} {p : Parameters} {key : LookupKey} {s : ParameterSet}

/-- A set is held under its hash. -/
theorem hash_of_set?_ofEntries {entries : List Entry} {hash : Bytes} {set : ParameterSet}
    (h : (ofEntries entries).set? hash = some set) : set.hash = hash := by
  rcases placed_of_set?_after h with hnew | ⟨hhash, -⟩
  · contradiction
  · exact hhash

/-- Without a place, something is held under the identifier or the key. -/
theorem exists_of_full {catalog : Catalog} {id : Bytes} (h : ¬ catalog.hasRoom id key = true) :
    ∃ q, catalog.get? id = some q ∨ catalog.ofKey? key = some q := by
  cases hid : catalog.get? id with
  | some q => exact ⟨q, .inl rfl⟩
  | none =>
    cases hheld : catalog.ofKey? key with
    | some q => exact ⟨q, .inr rfl⟩
    | none => exact absurd (hasRoom_iff.mpr ⟨hid, hheld⟩) h

/-- Once parameters have been deleted, others have a place under their key. -/
theorem hasRoom_of_deleted {catalog : Catalog} (hkey : p.key = .ok key) {id : Bytes}
    (hfree : catalog.get? id = none) :
    ((catalog.insert key p).delete p).2.hasRoom id key = true := by
  refine hasRoom_iff.mpr ⟨?_, ?_⟩
  · rw [get?_delete hkey]
    split
    · rfl
    · next hne => rw [get?_insert, if_neg hne, hfree]
  · rw [ofKey?, boundId_delete hkey, boundId_insert, if_pos rfl, if_pos ⟨rfl, rfl⟩]
    rfl

/-- Parameters with nothing in the way of their record are found once it has been taken in. -/
theorem leads_of_unopposed (hkey : p.key = .ok key) (hkeeps : (Saving.parameters p).KeepsKey)
    (h : (Saving.parameters p).Unopposed (ofEntries front)) :
    ∃ q, q.id = p.id ∧
      ((ofEntries front).hold (Saving.parameters p).record.content).get? p.id = some q ∧
      ((ofEntries front).hold (Saving.parameters p).record.content).ofKey? key = some q := by
  obtain ⟨q, hread, hkeyed⟩ := hkeeps
  have hnamed : q.id = p.id := Parameters.id_of_echo (p.ofBytes_toBytes.symm.trans hread)
  have hcontent : (Saving.parameters p).record.content = .parameters q key :=
    Entry.content_parameters hread hnamed (hkeyed.trans hkey)
  rw [hcontent, hold, hnamed]
  by_cases hroom : (ofEntries front).hasRoom p.id key = true
  · rw [if_pos hroom]
    refine ⟨q, hnamed, ?_, ofKey?_insert_self ..⟩
    rw [get?_insert, if_pos hnamed.symm]
  · rw [if_neg hroom]
    have hcoherent := coherent_ofEntries front
    obtain ⟨held, hheld⟩ := exists_of_full hroom
    rcases hheld with hid | hleads
    · obtain ⟨hown, hsame⟩ := h held (.inl hid)
      have hleads := hcoherent.ofKey?_eq_some_iff.mpr ⟨hown.symm ▸ hid, hsame.trans hkey⟩
      exact ⟨held, hown, hid, hleads⟩
    · have hfound : (ofEntries front).find p.action p.group = .ok (some held) := by
        rw [find_of_key _ hkey, hleads]
      obtain ⟨hown, -⟩ := h held (.inr hfound)
      have hid := (hcoherent.ofKey?_eq_some_iff.mp hleads).1
      exact ⟨held, hown, hown ▸ hid, hleads⟩

/-- A set with nothing in the way of its record is found once it has been taken in. -/
theorem set?_of_unopposed (h : (Saving.set s).Unopposed (ofEntries front)) :
    ∃ found, ((ofEntries front).hold (Saving.set s).record.content).set? s.hash = some found ∧
      found.hash = s.hash ∧ found.ids = s.ids := by
  have hcontent : (Saving.set s).record.content = .set s.toRecord := Entry.content_set s
  rw [hcontent]
  rcases h with ⟨held, hheld, hids⟩ | ⟨hfree, hmembers⟩
  · exact ⟨held, (extends_hold _ _).set? hheld, hash_of_set?_ofEntries hheld, hids⟩
  · have hhash : s.toRecord.hash = s.hash := rfl
    rw [hold, hhash, hfree, ParameterSet.restore_toRecord hmembers]
    refine ⟨⟨s.hash, s.ids.filterMap (ofEntries front).get?, none⟩, ?_, rfl, ?_⟩
    · simp [set?, Table.find?_insert]
    · have hfound := ParameterSet.restoreMembers_hex_iff.mp
        (ParameterSet.restoreMembers_hex hmembers)
      have hids : List.Forall₂ (fun id q => q.id = id) s.ids
          (s.ids.filterMap (ofEntries front).get?) :=
        hfound.imp fun id q hq => ((coherent_ofEntries front).held hq).1
      have hsame := List.forall₂_map_left_iff.mpr hids.flip
      rwa [List.forall₂_eq_eq_eq] at hsame

end Catalog

namespace Saving

open Catalog (ofEntries)

variable {front : List Entry} {saving : Saving}

/-- A record with nothing in its way is found, whatever comes behind it. -/
theorem isFound_of_unopposed {catalog : Catalog} (hplace : saving.HasPlace catalog)
    (hkeeps : saving.KeepsKey) (h : saving.Unopposed (ofEntries front)) (back : List Entry) :
    saving.IsFound (ofEntries (front ++ saving.record :: back)) := by
  rw [Catalog.ofEntries_append, Catalog.after_cons]
  have hextends := Catalog.extends_after ((ofEntries front).hold saving.record.content) back
  cases saving with
  | parameters p =>
    obtain ⟨-, key, hkey, -⟩ := hplace
    obtain ⟨q, hid, hget, hleads⟩ := Catalog.leads_of_unopposed hkey hkeeps h
    refine ⟨⟨q, hextends.get? hget, hid⟩, q, ?_, hid⟩
    rw [Catalog.find_of_key _ hkey, hextends.ofKey? hleads]
  | set s =>
    obtain ⟨found, hset, hfound⟩ := Catalog.set?_of_unopposed h
    exact ⟨found, hextends.set? hset, hfound⟩

/-- A record that is found has nothing in its way. -/
theorem unopposed_of_isFound {catalog : Catalog} (hplace : saving.HasPlace catalog)
    (h : saving.IsFound (ofEntries (front ++ [saving.record]))) :
    saving.Unopposed (ofEntries front) := by
  have hcoherent := Catalog.coherent_ofEntries (front ++ [saving.record])
  have hextends := Catalog.extends_after (ofEntries front) [saving.record]
  rw [← Catalog.ofEntries_append] at hextends
  cases saving with
  | parameters p =>
    obtain ⟨-, key, hkey, -⟩ := hplace
    obtain ⟨⟨q, hget, hid⟩, r, hfind, hown⟩ := h
    rw [Catalog.find_of_key _ hkey] at hfind
    have hleads := Except.ok.inj hfind
    obtain ⟨hheld, hrkey⟩ := hcoherent.ofKey?_eq_some_iff.mp hleads
    rintro held (hbefore | hbefore)
    · have hsame := (hextends.get? hbefore).symm.trans (hown ▸ hheld)
      obtain rfl := Option.some.inj hsame
      exact ⟨hown, hrkey.trans hkey.symm⟩
    · rw [Catalog.find_of_key _ hkey] at hbefore
      have hsame := (hextends.ofKey? (Except.ok.inj hbefore)).symm.trans hleads
      obtain rfl := Option.some.inj hsame
      exact ⟨hown, hrkey.trans hkey.symm⟩
  | set s =>
    obtain ⟨found, hset, -, hids⟩ := h
    rw [Catalog.ofEntries_append, Catalog.after_cons, Catalog.after_nil] at hset
    rcases Catalog.set?_hold hset with hbefore | ⟨-, hfree, record, hcontent, hrestore⟩
    · exact .inl ⟨found, hbefore, hids⟩
    · refine .inr ⟨hfree, fun id hid => ?_⟩
      have hrecord : Entry.Content.set s.toRecord = .set record :=
        (Entry.content_set s).symm.trans hcontent
      obtain rfl := Entry.Content.set.inj hrecord
      obtain ⟨members, hmembers, -⟩ := Catalog.restore_eq_ok.mp hrestore
      exact ParameterSet.isSome_of_restoreMembers_hex hmembers id hid

/-- What a catalog leads to does not depend on its configuration. -/
theorem isFound_after_new (config : Json.Members) (entries : List Entry) (saving : Saving) :
    saving.IsFound ((Catalog.new config).after entries) ↔ saving.IsFound (ofEntries entries) := by
  rw [Catalog.after_new]
  cases saving <;> exact Iff.rfl

theorem unopposed_after_new (config : Json.Members) (entries : List Entry) (saving : Saving) :
    saving.Unopposed ((Catalog.new config).after entries) ↔
      saving.Unopposed (ofEntries entries) := by
  rw [Catalog.after_new]
  cases saving <;> exact Iff.rfl

end Saving

namespace LoneStore

open Catalog (ofEntries)

variable {alone : LoneStore} {frames : List Frame} {saving : Saving} {group : Bytes}

/-- A store that has read its log finds what its catalog leads to. -/
theorem Level.foundBy_iff (h : alone.Level frames) (saving : Saving) :
    saving.FoundBy alone ↔ saving.IsFound alone.store.catalog := by
  cases saving with
  | parameters p => exact h.finds_iff p (·.id = p.id) fun _ => Iff.rfl
  | set s =>
    rw [Saving.FoundBy, (h.settled.ask_eq (.byHash s.hash)).result, Catalog.answer]
    simp [Except.map, Answer.stamp, Saving.IsFound, ParameterSet.stamp, ParameterSet.ids]

/-- A store that is opened on the frames of a log finds what the log leads to. -/
theorem opened_foundBy_iff {opening : Opening} (hallowed : opening.Allowed)
    (hfits : ∀ frame ∈ frames, frame.Fits) (saving : Saving) :
    saving.FoundBy (opened opening (bytesOf frames)) ↔
      saving.IsFound (ofEntries ((found frames).map (·.2))) := by
  obtain ⟨-, hlevel, hcatalog, -⟩ := opened_level hallowed hfits
  rw [hlevel.foundBy_iff, hcatalog, Saving.isFound_after_new]

/-- A save that is acknowledged has landed. -/
theorem Level.lands (h : alone.Level frames) (hack : (alone.save saving group).result = .ok true) :
    alone.Lands saving := by
  by_contra hlands
  exact (h.save_refused hlands group).2 hack

/-- What has been acknowledged and has nothing in its way is found by every store that is opened
later, whatever has been done since. -/
theorem Level.found_later (h : alone.Level frames)
    (hack : (alone.save saving group).result = .ok true) (hkeeps : saving.KeepsKey)
    (hunopposed : saving.Unopposed (ofEntries ((found frames).map (·.2))))
    {later : List Store.Command}
    (hgroups : Frame.MadeUp frames ([group] ++ later.flatMap (·.groups))) {opening : Opening}
    (hallowed : opening.Allowed) :
    (opening.load ((alone.save saving group).state.obey later).content).result = .ok () ∧
      saving.FoundBy (opened opening ((alone.save saving group).state.obey later).content) := by
  have hlands := h.lands hack
  have hgroup := List.mem_append_left (later.flatMap (·.groups)) (List.mem_singleton_self group)
  obtain ⟨row, hrow, hlevel, -⟩ :=
    h.save_landed hlands (hgroups.fresh group hgroup) (hgroups.fit group hgroup)
  have hown : groupIds row ⊆ [group] := by
    rw [Frame.groupIds_frames hrow]
    exact List.Subset.refl _
  obtain ⟨rows, hrows, hlast, -⟩ := hlevel.obey (hgroups.behind hown)
  rw [hlast.content]
  refine ⟨(opened_level hallowed hlast.fits).1, ?_⟩
  rw [opened_foundBy_iff hallowed hlast.fits, (hgroups.behind hown).found_append hrows,
    hgroups.of_append.found_append hown, Assembly.found_frames hrow, List.map_append,
    List.map_append, List.append_assoc]
  exact Saving.isFound_of_unopposed hlands.place hkeeps hunopposed _

/-- If a store that is opened right after a save finds what was saved, nothing was in its way. -/
theorem Level.unopposed (h : alone.Level frames)
    (hack : (alone.save saving group).result = .ok true) (hgroups : Frame.MadeUp frames [group])
    {opening : Opening} (hallowed : opening.Allowed)
    (hfound : saving.FoundBy (opened opening (alone.save saving group).state.content)) :
    saving.Unopposed (ofEntries ((found frames).map (·.2))) := by
  have hlands := h.lands hack
  have hgroup := List.mem_singleton_self group
  obtain ⟨row, hrow, hlevel, -⟩ :=
    h.save_landed hlands (hgroups.fresh group hgroup) (hgroups.fit group hgroup)
  have hown : groupIds row ⊆ [group] := by
    rw [Frame.groupIds_frames hrow]
    exact List.Subset.refl _
  rw [hlevel.content, opened_foundBy_iff hallowed hlevel.fits, hgroups.found_append hown,
    Assembly.found_frames hrow, List.map_append] at hfound
  exact Saving.unopposed_of_isFound hlands.place hfound

/-! ### A record of what was deleted -/

/-- Parameters are saved and deleted. -/
def withdrawn : List Store.Command := [.save (.sample 1) [0xa1], .delete (.sample 1)]

/-- The first record of a log: what the store holds then is what it has saved. -/
theorem blank_saved :
    let saved := blank.save (.parameters (.sample 1)) [0xa1]
    ∃ row key, (Parameters.sample 1).key = .ok key ∧
      (Saving.parameters (.sample 1)).record.frames [0xa1] 64 = .ok row ∧
      saved.result = .ok true ∧ saved.state.Level row ∧
      saved.state.store.catalog = (Catalog.new []).insert key (.sample 1) ∧
      saved.state.store.settings = (⟨[1]⟩, [], "log", 64, true) := by
  intro saved
  obtain ⟨hlevel, hcatalog, -⟩ := blank_level
  obtain ⟨key, hkey⟩ := (Parameters.sample 1).key_isOk.mpr (by decide)
  have hfresh : [0xa1] ∉ groupIds [] := by simp [groupIds]
  have hlands : blank.Lands (.parameters (.sample 1)) :=
    lands_blank (by decide) (by decide) (by decide +kernel)
  obtain ⟨row, hrow, hsaved, hheld, hsettings, hresult⟩ :=
    hlevel.save_landed hlands hfresh (by decide)
  rw [hcatalog, Catalog.hold_sample_one hkey] at hheld
  have hsize : blank.store.log.frameSize = 64 := congrArg (·.2.2.2.1) settings_blank
  rw [hsize] at hrow
  refine ⟨row, key, hkey, hrow, hresult.mpr ?_, hsaved, hheld, hsettings.trans settings_blank⟩
  rw [hheld, Saving.IsHeld, Catalog.get?_insert, if_pos rfl]
  rfl

/-- The record of the parameters that were deleted is in the log, and they and others with their key
have a place in the catalog. -/
theorem withdrawn_level :
    ∃ row, (blank.obey withdrawn).Level row ∧
      found row = [([0xa1], (Saving.parameters (.sample 1)).record)] ∧ groupIds row = [[0xa1]] ∧
      ∀ id ∈ [1, 2], (blank.obey withdrawn).Lands (.parameters (.sample id)) := by
  obtain ⟨row, key, hkey, hrow, -, hsaved, hheld, hsettings⟩ := blank_saved
  have hwritable : (blank.obey withdrawn).store.log.writable = true :=
    congrArg (·.2.2.2.2) hsettings
  have hsmall : ∀ id ∈ [1, 2],
      (Saving.parameters (.sample id)).record.size ≤ greatestEntrySize := by decide +kernel
  refine ⟨row, ⟨hsaved.fits, hsaved.content, hsaved.cursor, hsaved.framed⟩,
    Assembly.found_frames hrow, Frame.groupIds_frames hrow,
    fun id hid => ⟨?_, hwritable, hsmall id hid⟩⟩
  have hroom : (((Catalog.new []).insert key (.sample 1)).delete (.sample 1)).2.hasRoom [id] key =
      true := Catalog.hasRoom_of_deleted hkey rfl
  rw [← hheld] at hroom
  exact ⟨by simp [Parameters.sample, Parameters.new], key, hkey, hroom⟩

theorem withdrawn_acknowledges {id : UInt8} (hid : id ∈ [1, 2]) :
    ((blank.obey withdrawn).save (.parameters (.sample id)) [0xa2]).result = .ok true := by
  obtain ⟨row, hlevel, -, hgroup, hlands⟩ := withdrawn_level
  have hfresh : [0xa2] ∉ groupIds row := by simp [hgroup]
  obtain ⟨-, -, -, hcatalog, -, hresult⟩ := hlevel.save_landed (hlands id hid) hfresh (by decide)
  obtain ⟨-, key, hkey, hroom⟩ := (hlands id hid).place
  have hread : Parameters.ofBytes (Parameters.sample id).toBytes = .ok (.sample id) := by
    simp only [List.mem_cons, List.not_mem_nil, or_false] at hid
    rcases hid with rfl | rfl
    · exact Parameters.readable_sample_one
    · exact Parameters.readable_sample_two
  have hcontent : (Saving.parameters (.sample id)).record.content = .parameters (.sample id) key :=
    Entry.content_parameters hread rfl hkey
  have hheld : (Saving.parameters (.sample id)).IsHeld ((blank.obey withdrawn).store.catalog.hold
      (Saving.parameters (.sample id)).record.content) := by
    rw [hcontent, Catalog.hold, if_pos hroom, Saving.IsHeld, Catalog.get?_insert, if_pos rfl]
    rfl
  rw [hcatalog] at hresult
  exact hresult.mpr hheld

/-! ### Stores that are opened later -/

/-- A store works alone on a log of frames, and a save is acknowledged. Every store that is opened
later finds what was saved if nothing has been deleted before. If something has, that is so if and
only if a store that is opened just before the save holds nothing that is in the way. -/
theorem durable_iff_unopposed {opening : Opening} (hallowed : opening.Allowed) {base : List Frame}
    (hbase : ∀ frame ∈ base, frame.Fits) {commands : List Store.Command} {saving : Saving}
    {group : Bytes} (hgroups : Frame.MadeUp base (commands.flatMap (·.groups) ++ [group]))
    (hkeeps : saving.KeepsKey)
    (hack : (((opened opening (bytesOf base)).obey commands).save saving group).result =
      .ok true) :
    let before := (opened opening (bytesOf base)).obey commands
    let after := (before.save saving group).state
    ((∀ command ∈ commands, ¬ command.Deletes) →
      saving.Durable after base (commands.flatMap (·.groups) ++ [group])) ∧
    (saving.Durable after base (commands.flatMap (·.groups) ++ [group]) ↔
      saving.Unopposed (opened opening before.content).store.catalog) := by
  intro before after
  obtain ⟨-, hstart, hcatalog, -⟩ := opened_level hallowed hbase
  obtain ⟨rows, hrows, hlevel, hreplayed⟩ := hstart.obey hgroups.of_append
  have hheld : saving.Unopposed (opened opening before.content).store.catalog ↔
      saving.Unopposed (ofEntries ((found (base ++ rows)).map (·.2))) := by
    obtain ⟨-, -, hreopened, -⟩ := opened_level hallowed hlevel.fits
    rw [hlevel.content, hreopened, Saving.unopposed_after_new]
  have hdurable : saving.Durable after base (commands.flatMap (·.groups) ++ [group]) ↔
      saving.Unopposed (opened opening before.content).store.catalog := by
    rw [hheld]
    constructor
    · intro hdurable
      have hnone : Frame.MadeUp base
          (commands.flatMap (·.groups) ++ [group] ++ [].flatMap Store.Command.groups) := by
        rwa [List.flatMap_nil, List.append_nil]
      obtain ⟨-, hfound⟩ := hdurable [] hnone opening hallowed
      exact hlevel.unopposed hack (hgroups.behind hrows) hallowed hfound
    · intro hunopposed later hlater other hother
      rw [List.append_assoc] at hlater
      exact hlevel.found_later hack hkeeps hunopposed (hlater.behind hrows) hother
  refine ⟨fun hkept => ?_, hdurable⟩
  rw [hdurable, hheld, ← Saving.unopposed_after_new opening.config,
    hgroups.of_append.found_append hrows, List.map_append, Catalog.after_append, ← hcatalog,
    ← hreplayed hkept]
  exact (hlevel.lands hack).place.unopposed

theorem durable_iff_unopposed_withdrawn :
    let opening : Opening := ⟨⟨[1]⟩, [], "log", 64, true⟩
    let saving : Saving := .parameters (.sample 1)
    let before := (opened opening (bytesOf [])).obey withdrawn
    let after := (before.save saving [0xa2]).state
    opening.Allowed ∧ (∀ frame ∈ ([] : List Frame), frame.Fits) ∧
      Frame.MadeUp [] (withdrawn.flatMap (·.groups) ++ [[0xa2]]) ∧ saving.KeepsKey ∧
      (before.save saving [0xa2]).result = .ok true ∧
      ((∀ command ∈ withdrawn, ¬ command.Deletes) →
        saving.Durable after [] (withdrawn.flatMap (·.groups) ++ [[0xa2]])) ∧
      (saving.Durable after [] (withdrawn.flatMap (·.groups) ++ [[0xa2]]) ↔
        saving.Unopposed (opened opening before.content).store.catalog) := by
  intro opening saving before after
  have hallowed : opening.Allowed := ⟨_, rfl⟩
  have hbase : ∀ frame ∈ ([] : List Frame), frame.Fits := by simp
  have hgroups : Frame.MadeUp [] (withdrawn.flatMap (·.groups) ++ [[0xa2]]) :=
    ⟨by simp [groupIds], by decide, by decide⟩
  have hkeeps : saving.KeepsKey := ⟨_, Parameters.readable_sample_one, rfl⟩
  have hack : (before.save saving [0xa2]).result = .ok true := withdrawn_acknowledges (by decide)
  exact ⟨hallowed, hbase, hgroups, hkeeps, hack,
    durable_iff_unopposed hallowed hbase hgroups hkeeps hack⟩

/-- Parameters are acknowledged in the place of others that have been deleted, and a store that is
opened later does not find them. -/
theorem deleted_record_wins :
    let saved := (blank.obey withdrawn).save (.parameters (.sample 2)) [0xa2]
    saved.result = .ok true ∧
      ¬ (Saving.parameters (.sample 2)).FoundBy
        (opened ⟨⟨[2]⟩, [], "log", 64, false⟩ saved.state.content) := by
  intro saved
  have hack : saved.result = .ok true := withdrawn_acknowledges (by decide)
  refine ⟨hack, fun hlater => ?_⟩
  obtain ⟨row, hlevel, hfound, hgroup, -⟩ := withdrawn_level
  obtain ⟨key, hkey⟩ := (Parameters.sample 1).key_isOk.mpr (by decide)
  have hgroups : Frame.MadeUp row [[0xa2]] := ⟨by simp [hgroup], by decide, by decide⟩
  have hallowed : Opening.Allowed ⟨⟨[2]⟩, [], "log", 64, false⟩ := ⟨_, rfl⟩
  have hunopposed := hlevel.unopposed hack hgroups hallowed hlater
  have hheld : ofEntries ((found row).map (·.2)) = (Catalog.new []).insert key (.sample 1) := by
    rw [hfound, List.map_singleton, Catalog.ofEntries, Catalog.after_cons, Catalog.after_nil,
      Catalog.hold_sample_one hkey]
  have hwins : (ofEntries ((found row).map (·.2))).find (Parameters.sample 2).action
      (Parameters.sample 2).group = .ok (some (.sample 1)) := by
    have hsecond : (Parameters.sample 2).key = .ok key := hkey
    rw [Catalog.find_of_key _ hsecond, hheld, Catalog.ofKey?_insert_self]
  have hsame := (hunopposed _ (.inr hwins)).1
  exact absurd hsame (by decide)

end LoneStore
end ParameterLog
