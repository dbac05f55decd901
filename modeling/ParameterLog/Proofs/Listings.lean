/-
Module: ParameterLog.Proofs.Listings
Purpose: what a store lists is what it finds.
Main exports: Lists, Lists.map, Catalog.Filed, Catalog.Filed.changed, Catalog.Filed.listsParameters,
  Catalog.Filed.listsSets, FileStore.lists_of_allParameters, FileStore.lists_of_allSets,
  Store.two_views, BusyStore.run_save
-/
import ParameterLog.Proofs.DurableSaves
import ParameterLog.Proofs.FirstRecords
import ParameterLog.Proofs.MemberHashes
import ParameterLog.Proofs.StoreRuns

/-!
A listing goes through the tables of a catalog and a lookup asks them for a name. That both see the
same objects rests on two facts that every change keeps (`Filed`): a table binds each name once, and
what it binds to a name is an object of that name. So no name comes twice in a listing, which is in
strict order for that reason, and the objects of a listing are those that their names lead to
(`Lists`).

A file store reconciles before it lists. Looking up a name that is not known reconciles again, but
until something is appended there is nothing to read, so the lookup answers from the same catalog.
-/

namespace ParameterLog

/-- Identifiers that are all different stand in strict order once they are sorted. -/
theorem ParameterSet.sortIds_increasing {ids : List Bytes} (h : ids.Nodup) :
    (sortIds ids).Pairwise (· < ·) := by
  have hdistinct : (sortIds ids).Nodup := (sortIds_perm ids).nodup_iff.mpr h
  exact (sortIds_sorted ids).imp₂ (fun _ _ hle hne => Std.lt_of_le_of_ne hle hne) hdistinct

/-- A list is in the strict order of the names and has just those objects that looking their names
up finds; what is found under a name has this name. -/
structure Lists {α : Type} (name : α → Bytes) (lookup : Bytes → Except StoreError (Option α))
    (all : List α) : Prop where
  increasing : all.Pairwise fun a b => name a < name b
  mem_iff : ∀ a, a ∈ all ↔ lookup (name a) = .ok (some a)
  named : ∀ {key a}, lookup key = .ok (some a) → name a = key

namespace Lists

variable {α : Type} {name : α → Bytes}

/-- What is found under names that are bound once is listed by sorting it. -/
theorem of_table {table : Table Bytes α} (hdistinct : table.Distinct)
    (hnamed : ∀ key a, table.find? key = some a → name a = key) :
    Lists name (fun key => .ok (table.find? key))
      (table.values.mergeSort fun a b => decide (name a ≤ name b)) := by
  refine ⟨?_, fun a => ?_, fun {key a} hfound => hnamed key a (Except.ok.inj hfound)⟩
  · have hnames := ParameterSet.sortIds_increasing (hdistinct.nodup_names hnamed)
    have hsorted : (table.values.mergeSort fun a b => decide (name a ≤ name b)).map name =
        ParameterSet.sortIds (table.values.map name) :=
      List.map_mergeSort fun _ _ _ _ => rfl
    rwa [← hsorted, List.pairwise_map] at hnames
  · rw [List.mem_mergeSort, hdistinct.mem_values_iff, Except.ok.injEq]
    constructor
    · rintro ⟨key, hfound⟩
      rwa [hnamed key a hfound]
    · exact fun hfound => ⟨name a, hfound⟩

/-- Marking all objects makes no difference if it leaves their names alone. -/
theorem map {lookup : Bytes → Except StoreError (Option α)} {all : List α}
    (h : Lists name lookup all) {mark : α → α} (hmark : ∀ a, name (mark a) = name a) :
    Lists name (fun key => (lookup key).map (·.map mark)) (all.map mark) := by
  have hfound {key : Bytes} {a : α} :
      (lookup key).map (·.map mark) = .ok (some a) ↔
        ∃ b, lookup key = .ok (some b) ∧ mark b = a := by
    cases lookup key <;> simp [Except.map]
  refine ⟨?_, fun a => ?_, fun {key a} h' => ?_⟩
  · rw [List.pairwise_map]
    exact h.increasing.imp fun hlt => by rwa [hmark, hmark]
  · rw [List.mem_map, hfound]
    constructor
    · rintro ⟨b, hb, rfl⟩
      exact ⟨b, hmark b ▸ (h.mem_iff b).mp hb, rfl⟩
    · rintro ⟨b, hb, rfl⟩
      exact ⟨b, (h.mem_iff b).mpr (hmark b ▸ hb), rfl⟩
  · obtain ⟨b, hb, rfl⟩ := hfound.mp h'
    rw [hmark, h.named hb]

end Lists

namespace Catalog

/-! ### Names -/

theorem Tidy.change {catalog : Catalog} (h : Tidy catalog) (change : Change) :
    Tidy (catalog.change change).2 := by
  cases change with
  | save p =>
    rcases save_cases catalog p with ⟨key, -, -, heq⟩ | ⟨-, heq⟩
    · rw [Catalog.change, heq]
      exact ⟨h.byId.insert _ _, h.sets⟩
    · rwa [Catalog.change, heq]
  | saveSet set =>
    simp only [Catalog.change, saveSet]
    split
    · exact h
    · exact ⟨h.byId, h.sets.insert _ _⟩
  | delete p =>
    cases hkey : p.key with
    | error e => rwa [Catalog.change, delete_of_keyless hkey]
    | ok key =>
      refine ⟨?_, ?_⟩
      · rw [Catalog.change, byId_delete hkey]
        exact h.byId.erase _
      · rw [Catalog.change, sets_delete]
        exact h.sets
  | deleteSet hash => exact ⟨h.byId, h.sets.erase _⟩

/-- A set that is held after a change was held before or has been saved by it. -/
theorem set?_change {catalog : Catalog} {change : Change} {hash : Bytes} {set : ParameterSet}
    (h : (catalog.change change).2.set? hash = some set) :
    catalog.set? hash = some set ∨
      change = .saveSet set ∧ (catalog.saveSet set).1 = true ∧ set.hash = hash := by
  cases change with
  | save p =>
    rcases save_cases catalog p with ⟨key, -, -, heq⟩ | ⟨-, heq⟩
    · rw [Catalog.change, heq] at h
      exact .inl h
    · rw [Catalog.change, heq] at h
      exact .inl h
  | saveSet saved =>
    simp only [Catalog.change] at h
    cases hfresh : catalog.sets.contains saved.hash with
    | true =>
      rw [saveSet, hfresh] at h
      exact .inl h
    | false =>
      simp only [saveSet, hfresh, Bool.false_eq_true, if_false, set?, Table.find?_insert] at h
      split at h
      · next hsame =>
        obtain rfl := Option.some.inj h
        exact .inr ⟨rfl, by rw [saveSet, hfresh]; rfl, hsame.symm⟩
      · exact .inl h
  | delete p =>
    rw [Catalog.change, set?, sets_delete] at h
    exact .inl h
  | deleteSet gone =>
    simp only [Catalog.change, deleteSet, set?, Table.find?_erase] at h
    split at h
    · contradiction
    · exact .inl h

/-- Objects are held once each, under their own names. -/
structure Filed (catalog : Catalog) : Prop where
  tidy : Tidy catalog
  anchored : Anchored catalog
  hashed : ∀ {hash set}, catalog.set? hash = some set → set.hash = hash

namespace Filed

variable {catalog : Catalog}

theorem change (h : Filed catalog) (change : Change) : Filed (catalog.change change).2 := by
  refine ⟨h.tidy.change change, h.anchored.change change, fun {hash set} hset => ?_⟩
  rcases set?_change hset with hheld | ⟨-, -, hhash⟩
  · exact h.hashed hheld
  · exact hhash

theorem changed (h : Filed catalog) (changes : List Change) :
    Filed (catalog.changed changes) :=
  holds_along (P := Filed) h (fun _ last _ h => h.change last) changes List.prefix_rfl

theorem hold (h : Filed catalog) (entry : Entry) : Filed (catalog.hold entry.content) := by
  obtain ⟨changes, heq⟩ := catalog.exists_changes_hold entry
  rw [heq]
  exact h.changed changes

theorem listsParameters (h : Filed catalog) (store : StoreId) :
    Lists (·.id) (fun id => .ok (catalog.getFor? store id)) (catalog.allParametersFor store) :=
  (Lists.of_table h.tidy.byId fun _ _ hheld => (h.anchored.held hheld).1).map fun _ => rfl

theorem listsSets (h : Filed catalog) (store : StoreId) :
    Lists (·.hash) (fun hash => .ok (catalog.setFor? store hash)) (catalog.allSetsFor store) :=
  (Lists.of_table h.tidy.sets fun _ _ hheld => h.hashed hheld).map fun _ => rfl

end Filed

theorem filed_new (config : Json.Members) : Filed (new config) := by
  refine ⟨tidy_new config, (coherent_new config).anchored, fun {hash set} hset => ?_⟩
  contradiction

end Catalog

/-! ### File stores -/

theorem BusyStore.filed_run (opening : Opening) (base : Bytes) (moves : List Move) :
    Catalog.Filed ((opened opening base).run moves).store.catalog := by
  obtain ⟨config, changes, hcatalog⟩ := exists_changes opening base moves
  rw [hcatalog]
  exact (Catalog.filed_new config).changed changes

namespace FileStore

variable {store : FileStore} {content : Bytes}

theorem filed_reconcile (h : store.catalog.Filed) (content : Bytes) :
    (store.reconcile content).state.catalog.Filed := by
  obtain ⟨-, entries, hcatalog⟩ := reconcile_cases store content
  rw [hcatalog]
  exact Catalog.holds_after (fun entry h => h.hold entry) h entries

/-- If the lookups of a catalog find what it lists, then the lookups behind a listing find what a
store lists after reconciling, which has settled it. -/
theorem lists_of_listing {α : Type} {name : α → Bytes} (held : Bytes → Catalog → Option α)
    (stamp : StoreId → α → α) (list : FileStore → List α)
    (hlists : ∀ other : FileStore, other.catalog.Filed →
      Lists name (fun key => .ok ((held key other.catalog).map (stamp other.id))) (list other))
    (h : store.catalog.Filed) {all : List α}
    (hall : ((store.reconcile content).andThen fun _ store => .done store (list store)).result =
      .ok all) :
    Lists name (fun key => ((store.reconcile content).state.seek (held key) stamp content).result)
      all := by
  obtain ⟨hresult, hreply⟩ := Outcome.replied_of_ok hall
  obtain rfl := Except.ok.inj hreply
  simp only [(settled_of_reconcile hresult).result_seek]
  exact hlists _ (filed_reconcile h content)

/-- Behind a listing of the parameters, a lookup finds what was listed. -/
theorem lists_of_allParameters (h : store.catalog.Filed) {all : List Parameters}
    (hall : (store.allParameters content).result = .ok all) :
    Lists (·.id) (fun id => ((store.allParameters content).state.get id content).result) all := by
  have hstate : (store.allParameters content).state = (store.reconcile content).state :=
    Outcome.state_andThen _ fun _ _ => rfl
  simp only [hstate, get_eq_seek]
  exact lists_of_listing (fun id catalog => catalog.get? id) (fun mark p => p.stamp mark) _
    (fun _ hfiled => hfiled.listsParameters _) h hall

/-- Behind a listing of the sets, a lookup finds what was listed. -/
theorem lists_of_allSets (h : store.catalog.Filed) {all : List ParameterSet}
    (hall : (store.allSets content).result = .ok all) :
    Lists (·.hash) (fun hash => ((store.allSets content).state.getSet hash content).result)
      all := by
  have hstate : (store.allSets content).state = (store.reconcile content).state :=
    Outcome.state_andThen _ fun _ _ => rfl
  simp only [hstate, getSet_eq_seek]
  exact lists_of_listing (fun hash catalog => catalog.set? hash) (fun mark set => set.stamp mark) _
    (fun _ hfiled => hfiled.listsSets _) h hall

end FileStore

/-- A listing and the lookups behind it are two views of one store. Whatever has been saved in a
memory store and deleted from it, and whatever a file store and the others on its log have done, a
listing that succeeds is in the strict order of the identifiers, or of the hashes, and has an object
exactly if looking its identifier or hash up, before anything else is appended, finds this
object. -/
theorem Store.two_views :
    (∀ (id : StoreId) (config : Json.Members) (changes : List Catalog.Change),
      let store := (MemoryStore.new id config).changed changes
      Lists (·.id) (fun id => .ok (store.get? id)) store.allParameters ∧
        Lists (·.hash) (fun hash => .ok (store.set? hash)) store.allSets) ∧
    ∀ (opening : Opening) (base : Bytes) (moves : List BusyStore.Move),
      let busy := (BusyStore.opened opening base).run moves
      let listed := busy.store.allParameters busy.content
      let listedSets := busy.store.allSets busy.content
      (∀ all, listed.result = .ok all →
        Lists (·.id) (fun id => (listed.state.get id busy.content).result) all) ∧
      ∀ all, listedSets.result = .ok all →
        Lists (·.hash) (fun hash => (listedSets.state.getSet hash busy.content).result) all := by
  constructor
  · intro id config changes
    have hfiled := (Catalog.filed_new config).changed changes
    rw [MemoryStore.changed_eq]
    exact ⟨hfiled.listsParameters id, hfiled.listsSets id⟩
  · intro opening base moves
    have hfiled := BusyStore.filed_run opening base moves
    exact ⟨fun _ hall => FileStore.lists_of_allParameters hfiled hall,
      fun _ hall => FileStore.lists_of_allSets hfiled hall⟩

/-- A set of parameters. -/
def ParameterSet.single : ParameterSet := ⟨[7], [.sample 1], none⟩

/-- A catalog that holds parameters under a key, and a set of them. -/
def Catalog.couple (key : LookupKey) : Catalog :=
  { (Catalog.new []).insert key (.sample 1) with sets := Table.empty.insert [7] .single }

theorem Catalog.lists_couple (key : LookupKey) (store : StoreId) :
    (couple key).allParametersFor store = [(Parameters.sample 1).stamp store] ∧
      (couple key).allSetsFor store = [ParameterSet.single.stamp store] := by
  have hvalues : (couple key).byId.values = [.sample 1] := rfl
  have hsets : (couple key).sets.values = [.single] := rfl
  rw [allParametersFor, allParameters, hvalues, List.mergeSort_singleton, allSetsFor, allSets,
    hsets, List.mergeSort_singleton]
  exact ⟨rfl, rfl⟩

/-- The record of the set is taken in once the parameters are held. -/
theorem Catalog.hold_single (key : LookupKey) :
    ((new []).insert key (.sample 1)).hold (Saving.set .single).record.content = couple key := by
  have hcontent : (Saving.set .single).record.content = .set ParameterSet.single.toRecord :=
    Entry.content_set .single
  have hfree : ((new []).insert key (.sample 1)).set? ParameterSet.single.toRecord.hash = none :=
    rfl
  have hget : ((new []).insert key (.sample 1)).get? [1] = some (.sample 1) :=
    (get?_insert ..).trans (if_pos rfl)
  have hmembers : ∀ id ∈ ParameterSet.single.ids,
      (((new []).insert key (.sample 1)).get? id).isSome = true := by
    rintro id (_ | ⟨_, ⟨⟩⟩)
    exact congrArg Option.isSome hget
  have hfound : ParameterSet.single.ids.filterMap ((new []).insert key (.sample 1)).get? =
      [.sample 1] := List.filterMap_cons_some hget
  rw [hcontent, hold, hfree, ParameterSet.restore_toRecord hmembers, hfound]
  rfl

namespace BusyStore

/-- The moves of a save. -/
def saveMoves (saving : Saving) (group : Bytes) : List Move :=
  [.check saving, .append saving group, .confirm saving]

/-- A save that is acknowledged is its three moves, one after the other. -/
theorem run_save (store : FileStore) (content : Bytes) {saving : Saving} {group : Bytes}
    (h : (saving.save group content store).result = .ok true) :
    run ⟨store, content⟩ (saveMoves saving group) =
      ⟨(saving.save group content store).state.1, (saving.save group content store).state.2⟩ := by
  rw [Saving.save_eq] at h ⊢
  obtain ⟨hasRoom, -, hplaced, hstate⟩ := Store.ok_of_andThen h
  rw [hstate]
  cases hasRoom with
  | false => exact absurd (Except.ok.inj hplaced) Bool.false_ne_true
  | true =>
    simp only [Outcome.mapState, if_true] at hplaced ⊢
    obtain ⟨done, -, -, hconfirmed⟩ := Store.ok_of_andThen hplaced
    rw [hconfirmed]
    rfl

/-- Parameters are saved, and then others append the record of a set of them. -/
def joined : BusyStore :=
  (opened ⟨⟨[1]⟩, [], "log", 64, true⟩ []).run
    (saveMoves (.parameters (.sample 1)) [0xa1] ++
      [.others (Frame.bytesOf ((Saving.set .single).record.row [0xa2]))])

/-- What the store finds when it reads on. -/
theorem joined_reads :
    ∃ after key, (Parameters.sample 1).key = .ok key ∧
      (joined.store.reconcile joined.content).Yields (.ok ()) after ∧
      after.catalog = .couple key ∧ after.id = ⟨[1]⟩ := by
  obtain ⟨row, key, hkey, hrow, hack, hlevel, hcatalog, hsettings⟩ := LoneStore.blank_saved
  let saved := (LoneStore.blank.save (.parameters (.sample 1)) [0xa1]).state
  have hsave : run ⟨LoneStore.blank.store, LoneStore.blank.content⟩
      (saveMoves (.parameters (.sample 1)) [0xa1]) = ⟨saved.store, saved.content⟩ :=
    run_save _ _ hack
  have hjoined : joined =
      ⟨saved.store, saved.content ++ Frame.bytesOf ((Saving.set .single).record.row [0xa2])⟩ :=
    (List.foldl_append ..).trans (congrArg (fun busy => run busy _) hsave)
  have hfresh : [0xa2] ∉ Frame.groupIds row := by
    rw [Frame.groupIds_frames hrow]
    decide
  have hset : (Saving.set .single).record.frames [0xa2] 64 = .ok _ :=
    Entry.frames_row (by decide +kernel) [0xa2]
  have hsize : saved.store.log.frameSize = 64 := congrArg (·.2.2.2.1) hsettings
  rw [← hsize] at hset
  obtain ⟨after, hread, -, htaken, hkept⟩ :=
    hlevel.read_row hset (Frame.fits_of_frames hset (by decide)) hfresh
  refine ⟨after, key, hkey, ?_, ?_, congrArg (·.1) (hkept.trans hsettings)⟩
  · rw [hjoined]
    exact hread
  · rw [htaken, hcatalog, Catalog.hold_single]

end BusyStore

/-- The memory store that both have been saved in. -/
theorem MemoryStore.changed_couple {key : LookupKey} (hkey : (Parameters.sample 1).key = .ok key) :
    (new ⟨[1]⟩ []).changed [.save (.sample 1), .saveSet .single] = ⟨⟨[1]⟩, .couple key⟩ := by
  have hsave : (Catalog.new []).save (.sample 1) =
      (.ok true, (Catalog.new []).insert key (.sample 1)) := Catalog.save_of_hasRoom hkey rfl
  rw [changed_eq]
  simp only [Catalog.changed, List.foldl, Catalog.change, new, hsave]
  rfl

theorem Store.two_views_joined :
    let p := Parameters.sample 1
    let set := ParameterSet.single
    let store := (MemoryStore.new ⟨[1]⟩ []).changed [.save p, .saveSet set]
    let busy := BusyStore.joined
    let listed := busy.store.allParameters busy.content
    let listedSets := busy.store.allSets busy.content
    store.allParameters = [p.stamp ⟨[1]⟩] ∧ store.get? p.id = some (p.stamp ⟨[1]⟩) ∧
      store.allSets = [set.stamp ⟨[1]⟩] ∧ store.set? set.hash = some (set.stamp ⟨[1]⟩) ∧
      listed.result = .ok [p.stamp ⟨[1]⟩] ∧
      (listed.state.get p.id busy.content).result = .ok (some (p.stamp ⟨[1]⟩)) ∧
      listedSets.result = .ok [set.stamp ⟨[1]⟩] ∧
      (listedSets.state.getSet set.hash busy.content).result = .ok (some (set.stamp ⟨[1]⟩)) := by
  intro p set store busy listed listedSets
  obtain ⟨after, key, hkey, hread, hcatalog, hid⟩ := BusyStore.joined_reads
  obtain ⟨hparameters, hsets⟩ := Catalog.lists_couple key ⟨[1]⟩
  have hlisted : listed.result = .ok [p.stamp ⟨[1]⟩] := by
    refine (hread.andThen ⟨rfl, rfl⟩).result.trans ?_
    rw [hid, hcatalog, hparameters]
    rfl
  have hlistedSets : listedSets.result = .ok [set.stamp ⟨[1]⟩] := by
    refine (hread.andThen ⟨rfl, rfl⟩).result.trans ?_
    rw [hid, hcatalog, hsets]
    rfl
  have hstore : store = ⟨⟨[1]⟩, .couple key⟩ := MemoryStore.changed_couple hkey
  have hall : store.allParameters = [p.stamp ⟨[1]⟩] := hstore ▸ hparameters
  have hallSets : store.allSets = [set.stamp ⟨[1]⟩] := hstore ▸ hsets
  obtain ⟨hmemory, hfile⟩ := Store.two_views
  obtain ⟨hnames, hhashes⟩ := hmemory ⟨[1]⟩ [] [.save p, .saveSet set]
  obtain ⟨hviews, hviewsSets⟩ := hfile ⟨⟨[1]⟩, [], "log", 64, true⟩ []
    (BusyStore.saveMoves (.parameters p) [0xa1] ++
      [.others (Frame.bytesOf ((Saving.set set).record.row [0xa2]))])
  refine ⟨hall, ?_, hallSets, ?_, hlisted, ?_, hlistedSets, ?_⟩
  · exact Except.ok.inj ((hnames.mem_iff (p.stamp ⟨[1]⟩)).mp (hall ▸ List.mem_singleton_self _))
  · exact Except.ok.inj
      ((hhashes.mem_iff (set.stamp ⟨[1]⟩)).mp (hallSets ▸ List.mem_singleton_self _))
  · exact ((hviews _ hlisted).mem_iff (p.stamp ⟨[1]⟩)).mp (List.mem_singleton_self _)
  · exact ((hviewsSets _ hlistedSets).mem_iff (set.stamp ⟨[1]⟩)).mp (List.mem_singleton_self _)

end ParameterLog
