/-
Module: ParameterLog.Proofs.SoleWriter
Purpose: what a store does on a log that nobody else appends to.
Main exports: Outcome.Yields, FileStore.append_eq, FileStore.Settled, FileStore.Settled.ask_eq,
  FileStore.Settled.save_placed, FileStore.Settled.saveSet_placed, FileStore.Abreast,
  FileStore.Abreast.reconcile_append, FileStore.Abreast.save_new, FileStore.Abreast.saveSet_new
-/
import ParameterLog.Proofs.RecordReading
import ParameterLog.Proofs.StoreReading

/-!
A store is settled if there is nothing for it to read. Asking such a store changes nothing, so its
catalog answers as it is, whatever has been deleted from it (`Settled.ask_eq`). A save that appends
a record comes to what is read back (`Settled.save_placed`, `Settled.saveSet_placed`).

A store is abreast of its log if it has read all of it and no entry waits for frames. Then it is
settled, and reading back takes in the entry that was appended and nothing else, so the store is
abreast again (`Abreast.reconcile_append`); that the log still holds records of what was deleted
does not matter, and neither do their groups.
-/

namespace ParameterLog

open ParameterLog.Frame (bytesOf groupIds)

namespace Outcome

variable {σ τ α β : Type}

/-- An outcome comes to a result and leaves a state, whatever it reports. -/
structure Yields (outcome : Outcome σ α) (result : Except StoreError α) (state : σ) : Prop where
  result : outcome.result = result
  state : outcome.state = state

namespace Yields

variable {outcome : Outcome σ α} {state : σ}

theorem mapState {result : Except StoreError α} (h : outcome.Yields result state) (f : σ → τ) :
    (outcome.mapState f).Yields result (f state) := ⟨h.result, congrArg f h.state⟩

theorem map {result : Except StoreError α} (h : outcome.Yields result state) (f : α → β) :
    (outcome.map f).Yields (result.map f) state := ⟨congrArg (·.map f) h.result, h.state⟩

/-- What comes after a success starts from its answer and its state. -/
theorem andThen {answer : α} (h : outcome.Yields (.ok answer) state)
    {next : α → σ → Outcome σ β} {result : Except StoreError β} {final : σ}
    (hnext : (next answer state).Yields result final) :
    (outcome.andThen next).Yields result final := by
  rw [andThen_of_ok h.result, h.state]
  exact ⟨hnext.result, hnext.state⟩

/-- Nothing comes after a failure. -/
theorem andThen_error {error : StoreError} (h : outcome.Yields (.error error) state)
    (next : α → σ → Outcome σ β) : (outcome.andThen next).Yields (.error error) state := by
  rw [andThen_of_error h.result, h.state]
  exact ⟨rfl, rfl⟩

end Yields
end Outcome

open Outcome (Yields)

/-- The row of an entry leaves no frames that wait. -/
theorem Assembly.ofFrames_row {entry : Entry} {group : Bytes} {frameSize : Nat} {row : List Frame}
    (h : entry.frames group frameSize = .ok row) :
    (ofFrames row).entries = [entry] ∧ (ofFrames row).remaining = [] := by
  have hfound := found_frames h
  obtain ⟨hstart, hne⟩ := Frame.isStart_of_frames h
  constructor
  · rw [entries_ofFrames, hfound]
    rfl
  · have hsettled : ¬ Frame.Waiting row group := by
      have hopen := not_open_of_mem_found (hfound ▸ List.mem_singleton_self (group, entry))
      exact fun hwaiting => hopen fun _ => hwaiting
    rw [remaining_ofFrames, Frame.groupIds_of_group hne hstart.group_eq, List.flatMap_singleton,
      frames_resolve, if_neg hsettled]

/-- A cursor at the end of a log reads the frames that are appended. -/
theorem Cursor.read_row {row : List Frame} (hfits : ∀ frame ∈ row, frame.Fits) (path : String)
    (content : Bytes) :
    (Cursor.read path (content ++ bytesOf row) ⟨content.length, [], none⟩).Yields
      (.ok ⟨(Assembly.ofFrames row).entries, none⟩)
      ⟨(content ++ bytesOf row).length, (Assembly.ofFrames row).remaining, none⟩ := by
  have hscan := Frame.scan_shown hfits Frame.torn_nil content.length
  rw [List.append_nil, if_pos rfl] at hscan
  simp only [Cursor.read, List.drop_left, hscan, Cursor.take, List.nil_append, List.length_append]
  exact ⟨rfl, rfl⟩

/-! ### Records of sets -/

/-- The content of the record of a set is what the record was made of. -/
theorem Entry.content_set (set : ParameterSet) :
    Entry.content ⟨.parameterSet, set.hash, set.toBytes⟩ = .set set.toRecord := by
  have hread : SetRecord.ofBytes set.toBytes = .ok set.toRecord :=
    SetRecord.ofBytes_document set.toRecord
  simp only [Entry.content, hread]
  exact if_neg (not_not_intro rfl)

/-- The members of a record are restored if each of its texts names one that is found. -/
theorem ParameterSet.restoreMembers_eq_ok {lookup : Bytes → Option Parameters}
    {texts : List String} {members : List Parameters} :
    restoreMembers lookup texts = .ok members ↔
      List.Forall₂ (fun text p => ∃ id, Bytes.ofHex text = .ok id ∧ lookup id = some p)
        texts members := by
  induction texts generalizing members with
  | nil => simp [restoreMembers, eq_comm]
  | cons text rest ih =>
    rw [restoreMembers, memberId, List.forall₂_cons_left_iff]
    cases hhex : Bytes.ofHex text with
    | error e => simp [Except.mapError]
    | ok id =>
      cases hlookup : lookup id with
      | none => simp [Except.mapError, hlookup]
      | some p =>
        simp only [Except.mapError, hlookup, ← ih]
        cases restoreMembers lookup rest with
        | error e => simp
        | ok found =>
          simp only [Except.ok.injEq]
          constructor
          · rintro rfl
            exact ⟨p, found, ⟨id, rfl, hlookup⟩, rfl, rfl⟩
          · rintro ⟨_, _, ⟨_, rfl, hsome⟩, rfl, rfl⟩
            rw [Option.some.inj (hlookup.symm.trans hsome)]

/-- The members of a set are restored from its record if each of its identifiers leads to one. -/
theorem ParameterSet.restoreMembers_hex_iff {lookup : Bytes → Option Parameters} {ids : List Bytes}
    {members : List Parameters} :
    restoreMembers lookup (ids.map Bytes.hex) = .ok members ↔
      List.Forall₂ (fun id p => lookup id = some p) ids members := by
  simp [restoreMembers_eq_ok, List.forall₂_map_left_iff, Bytes.ofHex_hex]

theorem ParameterSet.isSome_of_restoreMembers_hex {lookup : Bytes → Option Parameters}
    {ids : List Bytes} {members : List Parameters}
    (h : restoreMembers lookup (ids.map Bytes.hex) = .ok members) :
    ∀ id ∈ ids, (lookup id).isSome = true := by
  have hfound := restoreMembers_hex_iff.mp h
  clear h
  induction hfound with
  | nil => simp
  | cons hfirst _ ih => simpa [hfirst] using ih

theorem ParameterSet.restoreMembers_hex {lookup : Bytes → Option Parameters} {ids : List Bytes}
    (h : ∀ id ∈ ids, (lookup id).isSome = true) :
    restoreMembers lookup (ids.map Bytes.hex) = .ok (ids.filterMap lookup) := by
  induction ids with
  | nil => rfl
  | cons id rest ih =>
    obtain ⟨p, hp⟩ := Option.isSome_iff_exists.mp (h id List.mem_cons_self)
    have hid : memberId id.hex = .ok id := by
      rw [memberId, Bytes.ofHex_hex]
      rfl
    rw [List.map_cons, restoreMembers, hid]
    simp only [hp, ih fun other hother => h other (List.mem_cons_of_mem _ hother),
      List.filterMap_cons]

/-- A set whose members are found is restored with what is found. -/
theorem ParameterSet.restore_toRecord {set : ParameterSet} {lookup : Bytes → Option Parameters}
    (h : ∀ id ∈ set.ids, (lookup id).isSome = true) :
    restore set.toRecord lookup = .ok ⟨set.hash, set.ids.filterMap lookup, none⟩ := by
  rw [restore, toRecord, restoreMembers_hex h]
  rfl

namespace FileStore

/-- The store has nothing to read. -/
def Settled (store : FileStore) (content : Bytes) : Prop :=
  (store.reconcile content).Yields (.ok ()) store

/-- The store has read all of its log, nothing waits, and it can append. -/
structure Abreast (store : FileStore) (content : Bytes) : Prop where
  cursor : store.log.cursor = ⟨content.length, [], none⟩
  writable : store.log.writable = true
  framed : ∃ capacity, Frame.capacity store.log.frameSize = .ok capacity

/-- The store after it has read some entries up to the end of the content. -/
def upTo (store : FileStore) (entries : List Entry) (content : Bytes) : FileStore :=
  { store with
    catalog := store.catalog.after entries
    log := { store.log with cursor := ⟨content.length, [], none⟩ } }

/-- An entry within the size limit is appended as a row of frames. -/
theorem append_eq {store : FileStore} (hwritable : store.log.writable = true)
    (hframed : ∃ capacity, Frame.capacity store.log.frameSize = .ok capacity) {entry : Entry}
    (hsize : entry.size ≤ greatestEntrySize) {group : Bytes}
    (hgroup : group.length ≤ greatestField) (content : Bytes) :
    ∃ row, entry.frames group store.log.frameSize = .ok row ∧
      (store.append entry.kind entry.id entry.data group content).Yields (.ok ())
        (content ++ bytesOf row) := by
  obtain ⟨capacity, hcapacity⟩ := hframed
  have hrow := entry.frames_eq_ok group hsize hcapacity
  obtain ⟨hresult, hstate⟩ :=
    Log.write_of_frames hwritable hrow (Frame.fits_of_frames hrow hgroup) content
  have hwrite : (store.log.write entry group content).Yields (.ok ()) _ := ⟨hresult, hstate⟩
  exact ⟨_, hrow, hwrite.andThen ⟨rfl, rfl⟩⟩

/-- What is read back decides what saving parameters comes to. -/
theorem confirm_eq {store after : FileStore} {content : Bytes} {p : Parameters} {key : LookupKey}
    (hkey : p.key = .ok key) (hback : (store.reconcile content).Yields (.ok ()) after) :
    (store.confirm p content).Yields (after.settle p key).result after := by
  rw [confirm, hkey]
  exact hback.andThen ⟨rfl, state_settle p key after⟩

/-- What is read back decides what saving a set comes to. -/
theorem confirmSet_eq {store after : FileStore} {content : Bytes}
    (hback : (store.reconcile content).Yields (.ok ()) after) (set : ParameterSet) :
    (store.confirmSet set content).Yields
      (if (after.catalog.set? set.hash).isSome then .ok true
        else .error (.readBackFailed set.hash.hex)) after := by
  refine hback.andThen ?_
  split
  · exact ⟨rfl, rfl⟩
  · exact ⟨rfl, rfl⟩

theorem missingMember?_eq_none_iff {store : FileStore} {set : ParameterSet} :
    store.missingMember? set = none ↔ ∀ id ∈ set.ids, (store.catalog.get? id).isSome = true := by
  simp only [missingMember?, List.find?_eq_none, Option.isNone_iff_eq_none,
    Option.isSome_iff_ne_none, ne_eq]

/-- Parameters without a key cannot be saved. -/
theorem save_keyless {p : Parameters} (hid : p.id ≠ []) {e : StoreError} (hkey : p.key = .error e)
    (group content : Bytes) (store : FileStore) :
    (store.save p group content).Yields (.error e) (store, content) := by
  have hnamed : ¬ p.id.isEmpty = true := by simpa using hid
  have hcheck : (store.check p content).Yields (.error e) store := by
    rw [check, if_neg hnamed, hkey]
    exact ⟨rfl, rfl⟩
  exact (hcheck.mapState (·, content)).andThen_error _

namespace Settled

variable {store : FileStore} {content : Bytes}

/-! ### Asking -/

theorem reconcileUnless_eq (h : store.Settled content) (known : Bool) :
    (store.reconcileUnless known content).Yields (.ok ()) store := by
  cases known with
  | true => exact ⟨rfl, rfl⟩
  | false => exact h

/-- The catalog of a store with nothing to read answers as it is. -/
theorem ask_eq (h : store.Settled content) (query : Query) :
    (store.ask query content).Yields ((store.catalog.answer query).map (·.stamp store.id))
      store := by
  cases query with
  | byId id => exact ((h.reconcileUnless_eq _).andThen ⟨rfl, rfl⟩).map _
  | byKey action group =>
    rw [FileStore.ask, find, Catalog.answer]
    cases hfind : store.catalog.find action group with
    | error e => exact ⟨rfl, rfl⟩
    | ok known =>
      have hmarked : store.catalog.findFor store.id action group =
          .ok (known.map (·.stamp store.id)) := by
        rw [Catalog.findFor, hfind]
        rfl
      have hfound : ((store.reconcileUnless known.isSome content).andThen fun _ store =>
          .of store (store.catalog.findFor store.id action group)).Yields
            (.ok (known.map (·.stamp store.id))) store :=
        (h.reconcileUnless_eq known.isSome).andThen ⟨hmarked, rfl⟩
      exact hfound.map Answer.parameters
  | byHash hash => exact ((h.reconcileUnless_eq _).andThen ⟨rfl, rfl⟩).map _
  | allParameters => exact (Yields.andThen h ⟨rfl, rfl⟩).map _
  | allSets => exact (Yields.andThen h ⟨rfl, rfl⟩).map _

/-! ### Saving -/

theorem check_eq (h : store.Settled content) {p : Parameters} (hid : p.id ≠ []) {key : LookupKey}
    (hkey : p.key = .ok key) :
    (store.check p content).Yields (.ok (store.catalog.hasRoom p.id key)) store := by
  have hnamed : ¬ p.id.isEmpty = true := by simpa using hid
  rw [check, if_neg hnamed, hkey]
  exact Yields.andThen h ⟨rfl, rfl⟩

/-- Parameters without a place are known, and nothing is appended. -/
theorem save_known (h : store.Settled content) {p : Parameters} (hid : p.id ≠ [])
    {key : LookupKey} (hkey : p.key = .ok key) (hroom : store.catalog.hasRoom p.id key = false)
    (group : Bytes) : (store.save p group content).Yields (.ok false) (store, content) := by
  have hcheck := h.check_eq hid hkey
  rw [hroom] at hcheck
  exact (hcheck.mapState (·, content)).andThen ⟨rfl, rfl⟩

/-- Parameters that have a place are appended, and what is read back decides. -/
theorem save_placed (h : store.Settled content) {p : Parameters} (hid : p.id ≠ [])
    {key : LookupKey} (hkey : p.key = .ok key) (hroom : store.catalog.hasRoom p.id key = true)
    {group more : Bytes}
    (happend : (store.append .parameters p.id p.toBytes group content).Yields (.ok ()) more)
    {after : FileStore} (hback : (store.reconcile more).Yields (.ok ()) after) :
    (store.save p group content).Yields (after.settle p key).result (after, more) := by
  have hcheck := h.check_eq hid hkey
  rw [hroom] at hcheck
  refine (hcheck.mapState (·, content)).andThen ?_
  dsimp only
  rw [if_pos rfl]
  exact (happend.mapState (store, ·)).andThen ((confirm_eq hkey hback).mapState (·, more))

/-- A set with a known hash is known, and nothing is appended. -/
theorem saveSet_known (h : store.Settled content) {set : ParameterSet}
    (hknown : (store.catalog.set? set.hash).isSome = true) (group : Bytes) :
    (store.saveSet set group content).Yields (.ok false) (store, content) := by
  have hcheck : (store.checkSet set content).Yields (.ok false) store := by
    refine Yields.andThen h ?_
    rw [if_pos hknown]
    exact ⟨rfl, rfl⟩
  exact (hcheck.mapState (·, content)).andThen ⟨rfl, rfl⟩

theorem checkSet_new (h : store.Settled content) {set : ParameterSet}
    (hnew : store.catalog.set? set.hash = none)
    (hheld : ∀ id ∈ set.ids, (store.catalog.get? id).isSome = true) :
    (store.checkSet set content).Yields (.ok true) store := by
  refine Yields.andThen h ?_
  rw [hnew, missingMember?_eq_none_iff.mpr hheld]
  exact ⟨rfl, rfl⟩

/-- A new set whose members are held is appended, and what is read back decides. -/
theorem saveSet_placed (h : store.Settled content) {set : ParameterSet}
    (hnew : store.catalog.set? set.hash = none)
    (hheld : ∀ id ∈ set.ids, (store.catalog.get? id).isSome = true) {group more : Bytes}
    (happend : (store.append .parameterSet set.hash set.toBytes group content).Yields (.ok ())
      more)
    {after : FileStore} (hback : (store.reconcile more).Yields (.ok ()) after) :
    (store.saveSet set group content).Yields
      (if (after.catalog.set? set.hash).isSome then .ok true
        else .error (.readBackFailed set.hash.hex))
      (after, more) := by
  have hcheck := h.checkSet_new hnew hheld
  refine (hcheck.mapState (·, content)).andThen ?_
  dsimp only
  rw [if_pos rfl]
  exact (happend.mapState (store, ·)).andThen ((confirmSet_eq hback set).mapState (·, more))

end Settled

namespace Abreast

variable {store : FileStore} {content : Bytes}

theorem upTo (h : store.Abreast content) (entries : List Entry) (more : Bytes) :
    (store.upTo entries more).Abreast more := ⟨rfl, h.writable, h.framed⟩

theorem withCatalog (h : store.Abreast content) (catalog : Catalog) :
    ({ store with catalog := catalog } : FileStore).Abreast content :=
  ⟨h.cursor, h.writable, h.framed⟩

/-- Reading back what was appended takes in its entries. -/
theorem reconcile_row (h : store.Abreast content) {row : List Frame}
    (hfits : ∀ frame ∈ row, frame.Fits) (hremaining : (Assembly.ofFrames row).remaining = []) :
    (store.reconcile (content ++ bytesOf row)).Yields (.ok ())
      (store.upTo (Assembly.ofFrames row).entries (content ++ bytesOf row)) := by
  have hread := Cursor.read_row hfits store.log.path content
  rw [← h.cursor, hremaining] at hread
  have hlog := (hread.mapState fun cursor => { store.log with cursor := cursor }).mapState
    fun log => { store with log := log }
  obtain ⟨hdone, habsorbed⟩ := absorb_eq ⟨(Assembly.ofFrames row).entries, none⟩
    { store with log := { store.log with cursor := ⟨(content ++ bytesOf row).length, [], none⟩ } }
  exact hlog.andThen ⟨hdone, habsorbed⟩

/-- Reading what has been read leaves the store as it is. -/
theorem settled (h : store.Abreast content) : store.Settled content := by
  have hfits : ∀ frame ∈ ([] : List Frame), frame.Fits := by simp
  have hnone := h.reconcile_row hfits rfl
  have hsame : store.upTo (Assembly.ofFrames []).entries content = store := by
    rw [FileStore.upTo, ← h.cursor]
    rfl
  rwa [Frame.bytesOf_nil, List.append_nil, hsame] at hnone

/-- Reading back an entry that was appended takes it in. -/
theorem reconcile_append (h : store.Abreast content) {entry : Entry} {group : Bytes}
    {row : List Frame} (hrow : entry.frames group store.log.frameSize = .ok row)
    (hgroup : group.length ≤ greatestField) :
    (store.reconcile (content ++ bytesOf row)).Yields (.ok ())
      (store.upTo [entry] (content ++ bytesOf row)) := by
  obtain ⟨hentries, hremaining⟩ := Assembly.ofFrames_row hrow
  rw [← hentries]
  exact h.reconcile_row (Frame.fits_of_frames hrow hgroup) hremaining

/-- Parameters that have a place are saved: the store holds what their record is read back as. -/
theorem save_new (h : store.Abreast content) {p q : Parameters} (hid : p.id ≠ [])
    {key : LookupKey} (hkey : p.key = .ok key) (hroom : store.catalog.hasRoom p.id key = true)
    (hread : Parameters.ofBytes p.toBytes = .ok q) (hnamed : q.id = p.id)
    (hkeyed : q.key = .ok key)
    (hsize : (Entry.mk .parameters p.id p.toBytes).size ≤ greatestEntrySize) {group : Bytes}
    (hgroup : group.length ≤ greatestField) :
    ∃ after more, (store.save p group content).Yields (.ok true) (after, more) ∧
      after.Abreast more ∧ after.catalog = store.catalog.insert key q := by
  obtain ⟨row, hrow, happend⟩ := append_eq h.writable h.framed hsize hgroup content
  have hsaved := h.settled.save_placed hid hkey hroom happend (h.reconcile_append hrow hgroup)
  have hcatalog : store.catalog.after [⟨.parameters, p.id, p.toBytes⟩] =
      store.catalog.insert key q := by
    rw [Catalog.after_cons, Catalog.after_nil, Entry.content_parameters hread hnamed hkeyed,
      Catalog.hold, hnamed, if_pos hroom]
  have hheld :
      ((store.catalog.after [⟨.parameters, p.id, p.toBytes⟩]).get? p.id).isSome = true := by
    rw [hcatalog, Catalog.get?_insert, if_pos hnamed.symm]
    rfl
  rw [settle, FileStore.upTo, if_pos hheld] at hsaved
  exact ⟨_, _, hsaved, h.upTo _ _, hcatalog⟩

/-- A new set whose members are held is saved: the store holds it with the members that it holds. -/
theorem saveSet_new (h : store.Abreast content) {set : ParameterSet}
    (hnew : store.catalog.set? set.hash = none)
    (hheld : ∀ id ∈ set.ids, (store.catalog.get? id).isSome = true)
    (hsize : (Entry.mk .parameterSet set.hash set.toBytes).size ≤ greatestEntrySize)
    {group : Bytes} (hgroup : group.length ≤ greatestField) :
    ∃ after more, (store.saveSet set group content).Yields (.ok true) (after, more) ∧
      after.Abreast more ∧ after.catalog = (store.catalog.saveSet
        ⟨set.hash, set.ids.filterMap store.catalog.get?, none⟩).2 := by
  obtain ⟨row, hrow, happend⟩ := append_eq h.writable h.framed hsize hgroup content
  have hsaved := h.settled.saveSet_placed hnew hheld happend (h.reconcile_append hrow hgroup)
  have hfree : store.catalog.sets.contains set.hash = false := by
    rw [Table.contains, ← Catalog.set?, hnew]
    rfl
  have hcatalog : store.catalog.after [⟨.parameterSet, set.hash, set.toBytes⟩] =
      (store.catalog.saveSet ⟨set.hash, set.ids.filterMap store.catalog.get?, none⟩).2 := by
    have hhash : set.toRecord.hash = set.hash := rfl
    rw [Catalog.after_cons, Catalog.after_nil, Entry.content_set, Catalog.hold, hhash, hnew,
      ParameterSet.restore_toRecord hheld, Catalog.saveSet, hfree]
    rfl
  have hlisted : ((store.catalog.after [⟨.parameterSet, set.hash, set.toBytes⟩]).set?
      set.hash).isSome = true := by
    rw [hcatalog, Catalog.saveSet, hfree, Catalog.set?]
    simp [Table.find?_insert]
  rw [FileStore.upTo, if_pos hlisted] at hsaved
  exact ⟨_, _, hsaved, h.upTo _ _, hcatalog⟩

end Abreast
end FileStore
end ParameterLog
