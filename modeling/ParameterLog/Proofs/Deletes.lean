/-
Module: ParameterLog.Proofs.Deletes
Purpose: what a delete comes to in a store whose log others append to.
Main exports: Catalog.Places, Catalog.PlacesSet, Catalog.AgreesBut, FileStore.Forgets,
  FileStore.forgets_iff, BusyStore.deleted_comes_back
-/
import ParameterLog.Proofs.DurableSaves
import ParameterLog.Proofs.StoreRuns

/-!
A delete goes by the catalog and by nothing else, while a lookup that finds nothing in the catalog
reads the log. So what has become of a deleted object depends on the entries that the store had not
read when the delete came (`unread`). The lookup behind the delete takes them in, and the object is
back if one of them finds a place (`Places`, `PlacesSet`). If the object was not held at all, the
same entry would have made a lookup before the delete find it, though there was nothing to delete.

A delete that finds no object may still free a key. Such a key led nowhere, so until something is
saved under the identifier the catalogs with and without it take the same entries in
(`AgreesBut`).
-/

namespace ParameterLog

namespace Catalog

variable {catalog : Catalog} {entries : List Entry}

/-! ### Finding a place -/

/-- One of some entries that are taken in one after the other has parameters with an identifier, and
there is room for them when its turn comes. -/
def Places (catalog : Catalog) (entries : List Entry) (id : Bytes) : Prop :=
  ∃ front entry back p key, entries = front ++ entry :: back ∧
    entry.content = .parameters p key ∧ p.id = id ∧ (catalog.after front).hasRoom id key = true

/-- One of some entries that are taken in one after the other is the record of a set with a hash,
and all its members are held when its turn comes. -/
def PlacesSet (catalog : Catalog) (entries : List Entry) (hash : Bytes) : Prop :=
  ∃ front entry back record set, entries = front ++ entry :: back ∧
    entry.content = .set record ∧ record.hash = hash ∧
    ParameterSet.restore record (catalog.after front).get? = .ok set

/-- An identifier comes to be taken exactly if parameters with it find a place. -/
theorem isSome_get?_after_iff {id : Bytes} (h : catalog.get? id = none) :
    ((catalog.after entries).get? id).isSome = true ↔ catalog.Places entries id := by
  constructor
  · intro hheld
    obtain ⟨p, hp⟩ := Option.isSome_iff_exists.mp hheld
    rcases placed_of_get?_after hp with hbefore | ⟨rfl, front, entry, back, key, hentries⟩
    · rw [h] at hbefore
      contradiction
    · obtain ⟨hsplit, hcontent, hroom⟩ := hentries
      exact ⟨front, entry, back, p, key, hsplit, hcontent, rfl, hroom⟩
  · rintro ⟨front, entry, back, p, key, rfl, hcontent, rfl, hroom⟩
    have hheld : ((catalog.after front).hold entry.content).get? p.id = some p := by
      rw [hcontent, hold, if_pos hroom, get?_insert, if_pos rfl]
    rw [after_append, after_cons, (extends_after _ back).get? hheld]
    rfl

/-- A hash comes to be taken exactly if a set with it finds a place. -/
theorem isSome_set?_after_iff {hash : Bytes} (h : catalog.set? hash = none) :
    ((catalog.after entries).set? hash).isSome = true ↔ catalog.PlacesSet entries hash := by
  constructor
  · intro hheld
    obtain ⟨set, hset⟩ := Option.isSome_iff_exists.mp hheld
    rcases placed_of_set?_after hset with hbefore | ⟨rfl, front, entry, back, record, hentries⟩
    · rw [h] at hbefore
      contradiction
    · obtain ⟨hsplit, hcontent, -, hrestore⟩ := hentries
      exact ⟨front, entry, back, record, set, hsplit, hcontent, (hash_of_restore hrestore).symm,
        hrestore⟩
  · rintro ⟨front, entry, back, record, set, rfl, hcontent, rfl, hrestore⟩
    exact isSome_set?_of_restored hcontent hrestore

/-! ### Keys that lead nowhere -/

/-- Two catalogs hold the same parameters, and none under an identifier. They bind the same keys,
but for some that only the second one binds to this identifier. -/
structure AgreesBut (id : Bytes) (first second : Catalog) : Prop where
  get? : first.get? = second.get?
  gone : second.get? id = none
  keys : ∀ key, first.idOfKey.find? key = second.idOfKey.find? key ∨
    first.idOfKey.find? key = none ∧ second.idOfKey.find? key = some id

namespace AgreesBut

variable {id : Bytes} {first second : Catalog}

/-- There is room for the same parameters. -/
theorem hasRoom_eq (h : AgreesBut id first second) (other : Bytes) (key : LookupKey) :
    first.hasRoom other key = second.hasRoom other key := by
  have hkey : first.ofKey? key = second.ofKey? key := by
    have hleads (catalog : Catalog) :
        catalog.ofKey? key = (catalog.idOfKey.find? key).bind catalog.get? := rfl
    rw [hleads, hleads, h.get?]
    rcases h.keys key with hsame | ⟨hfree, hbound⟩
    · rw [hsame]
    · rw [hfree, hbound, Option.bind_some, h.gone, Option.bind_none]
  rw [hasRoom, hasRoom, h.get?, hkey]

/-- The catalogs go on agreeing until the identifier is taken in both. -/
theorem hold (h : AgreesBut id first second) (content : Entry.Content) :
    AgreesBut id (first.hold content) (second.hold content) ∨
      ((first.hold content).get? id).isSome = true ∧
        ((second.hold content).get? id).isSome = true := by
  cases content with
  | parameters p key =>
    simp only [Catalog.hold, h.hasRoom_eq]
    split
    · by_cases hid : id = p.id
      · exact .inr (by simp [get?_insert, hid])
      · refine .inl ⟨funext fun other => ?_, ?_, fun other => ?_⟩
        · rw [get?_insert, get?_insert, h.get?]
        · rw [get?_insert, if_neg hid, h.gone]
        · rw [boundId_insert, boundId_insert]
          split
          · exact .inl rfl
          · exact h.keys other
    · exact .inl h
  | set record =>
    have hkept (catalog : Catalog) :
        (catalog.hold (.set record)).get? = catalog.get? ∧
          (catalog.hold (.set record)).idOfKey = catalog.idOfKey := by
      simp only [Catalog.hold]
      split
      · exact ⟨rfl, rfl⟩
      · split <;> exact ⟨rfl, rfl⟩
    refine .inl ⟨?_, ?_, fun other => ?_⟩
    · rw [(hkept first).1, (hkept second).1, h.get?]
    · rw [(hkept second).1, h.gone]
    · rw [(hkept first).2, (hkept second).2]
      exact h.keys other
  | nothing => exact .inl h

/-- The same entries make the identifier taken. -/
theorem isSome_get?_after (h : AgreesBut id first second) (entries : List Entry) :
    ((first.after entries).get? id).isSome = ((second.after entries).get? id).isSome := by
  induction entries generalizing first second with
  | nil => rw [after_nil, after_nil, h.get?]
  | cons entry rest ih =>
    rw [after_cons, after_cons]
    rcases h.hold entry.content with hagree | ⟨hfirst, hsecond⟩
    · exact ih hagree
    · obtain ⟨p, hp⟩ := Option.isSome_iff_exists.mp hfirst
      obtain ⟨q, hq⟩ := Option.isSome_iff_exists.mp hsecond
      rw [(extends_after _ rest).get? hp, (extends_after _ rest).get? hq]
      rfl

end AgreesBut

/-- A delete that finds no object frees a key that led nowhere, if any. -/
theorem agreesBut_delete {p : Parameters} {key : LookupKey} (hkey : p.key = .ok key)
    (hnone : catalog.get? p.id = none) : AgreesBut p.id (catalog.delete p).2 catalog := by
  refine ⟨(answersAs_delete hkey hnone).get?, hnone, fun other => ?_⟩
  rw [boundId_delete hkey]
  split
  · next hfreed => exact .inr ⟨rfl, hfreed.1 ▸ hfreed.2⟩
  · exact .inl rfl

end Catalog

namespace FileStore

variable {store : FileStore} {content : Bytes}

/-! ### Forgetting -/

/-- What a delete should come to: the lookup behind it finds nothing, be it that it fails as the log
cannot be read, and the delete says whether the lookup before it would have found something. -/
structure Forgets {α : Type} (lookup : FileStore → Outcome FileStore (Option α))
    (deleted : Outcome FileStore Bool) (store : FileStore) (content : Bytes) : Prop where
  gone : (lookup deleted.state).result = (store.log.read content).result.map fun _ => none
  told : deleted.result = .ok true ↔ ∃ a, (lookup store).result = .ok (some a)

/-- A delete that goes by the catalog alone forgets exactly if nothing of the name is held once all
that can be read has been taken in. -/
theorem forgets_seek_iff {α : Type} (held : Catalog → Option α) (stamp : StoreId → α → α)
    {deleted : Outcome FileStore Bool}
    (hresult : deleted.result = .ok (held store.catalog).isSome)
    (hlog : deleted.state.log = store.log) (hgone : held deleted.state.catalog = none)
    (hkept : ∀ a entries, held store.catalog = some a →
      (held (store.catalog.after entries)).isSome = true)
    (hsame : held store.catalog = none → ∀ entries,
      (held (deleted.state.catalog.after entries)).isSome =
        (held (store.catalog.after entries)).isSome) :
    Forgets (·.seek held stamp content) deleted store content ↔
      ¬ (held (deleted.state.catalog.after (store.unread content))).isSome = true := by
  have hlookup : (deleted.state.seek held stamp content).result = _ := result_seek_of_none hgone
  rw [hlog] at hlookup
  constructor
  · intro h
    have hnone := h.gone
    rw [hlookup] at hnone
    rw [unread]
    cases hread : (store.log.read content).result with
    | ok reading =>
      rw [hread] at hnone
      simpa using Option.map_eq_none_iff.mp (Except.ok.inj hnone)
    | error e => simp [hgone]
  · intro hnone
    constructor
    · rw [hlookup]
      rw [unread] at hnone
      cases hread : (store.log.read content).result with
      | ok reading =>
        rw [hread] at hnone
        simpa [Except.map] using hnone
      | error e => rfl
    · rw [hresult, found_seek_iff hkept]
      cases hheld : held store.catalog with
      | some a => simp [hkept a _ hheld]
      | none => simpa [hsame hheld] using hnone

/-- What a delete comes to, whatever the store holds and whatever its log holds by then. It says
whether something was held. It forgets the parameters exactly if no entry that the store had not
read has parameters with their identifier that find a place in the catalog that is left, and it
forgets a set exactly if none of these entries is the record of a set with its hash whose members
are all held when its turn comes. -/
theorem forgets_iff (store : FileStore) (content hash : Bytes) {p : Parameters}
    (haction : p.action.id ≠ []) :
    (store.delete p).result = .ok (store.catalog.get? p.id).isSome ∧
      (Forgets (·.get p.id content) (store.delete p) store content ↔
        ¬ (store.delete p).state.catalog.Places (store.unread content) p.id) ∧
      (store.deleteSet hash).result = .ok (store.catalog.set? hash).isSome ∧
      (Forgets (·.getSet hash content) (store.deleteSet hash) store content ↔
        ¬ (store.deleteSet hash).state.catalog.PlacesSet (store.unread content) hash) := by
  obtain ⟨key, hkey⟩ := p.key_isOk.mpr haction
  have hresult : (store.delete p).result = .ok (store.catalog.get? p.id).isSome := by
    rw [delete, Catalog.delete, hkey]
    rfl
  have hgone : (store.delete p).state.catalog.get? p.id = none :=
    (Catalog.get?_delete hkey p.id).trans (if_pos rfl)
  have hgoneSet : (store.deleteSet hash).state.catalog.set? hash = none := by
    simp [deleteSet, Catalog.deleteSet, Catalog.set?, Table.find?_erase, Outcome.done]
  refine ⟨hresult, ?_, rfl, ?_⟩
  · simp only [get_eq_seek]
    rw [← Catalog.isSome_get?_after_iff hgone]
    refine forgets_seek_iff (·.get? p.id) (fun mark q => q.stamp mark) hresult rfl hgone
      (fun q entries hq => ?_) fun hnone => ?_
    · rw [(Catalog.extends_after _ entries).get? hq]
      rfl
    · exact (Catalog.agreesBut_delete hkey hnone).isSome_get?_after
  · simp only [getSet_eq_seek]
    rw [← Catalog.isSome_set?_after_iff hgoneSet]
    refine forgets_seek_iff (·.set? hash) (fun mark set => set.stamp mark) rfl rfl hgoneSet
      (fun set entries hset => ?_) fun hnone entries => ?_
    · rw [(Catalog.extends_after _ entries).set? hset]
      rfl
    · -- There is nothing to erase.
      have hsame : (store.deleteSet hash).state.catalog = store.catalog := by
        simp only [deleteSet, Catalog.deleteSet, Outcome.done]
        rw [Table.erase_of_find?_eq_none hnone]
      rw [hsame]

/-- A store forgets what it has saved itself in a log that nobody else appends to. -/
theorem forgets_iff_saved :
    let saved := (LoneStore.blank.save (.parameters (.sample 1)) [0xa1]).state
    (Parameters.sample 1).action.id ≠ [] ∧
      (saved.store.delete (.sample 1)).result = .ok true ∧
      Forgets (·.get [1] saved.content) (saved.store.delete (.sample 1)) saved.store
        saved.content := by
  intro saved
  have haction : (Parameters.sample 1).action.id ≠ [] := by decide
  obtain ⟨row, key, hkey, -, -, hlevel, hcatalog, -⟩ := LoneStore.blank_saved
  obtain ⟨hresult, hforgets, -⟩ := forgets_iff saved.store saved.content [] haction
  have hheld : (saved.store.catalog.get? (Parameters.sample 1).id).isSome = true := by
    rw [hcatalog, Catalog.get?_insert, if_pos rfl]
    rfl
  rw [hheld] at hresult
  refine ⟨haction, hresult, hforgets.mpr fun hplaces => ?_⟩
  have hgone : (saved.store.delete (.sample 1)).state.catalog.get? [1] = none :=
    (Catalog.get?_delete hkey [1]).trans (if_pos rfl)
  have hdeleted : LoneStore.Level ⟨(saved.store.delete (.sample 1)).state, saved.content⟩ row :=
    ⟨hlevel.fits, hlevel.content, hlevel.cursor, hlevel.framed⟩
  have hback := (Catalog.isSome_get?_after_iff hgone).mpr hplaces
  have hsame : (saved.store.delete (.sample 1)).state.catalog.after
      (saved.store.unread saved.content) = _ := hdeleted.settled.after_unread
  rw [hsame, hgone] at hback
  contradiction

end FileStore

/-! ### An object that comes back -/

namespace BusyStore

/-- A store has been opened on an empty log, and then another one has saved parameters. -/
def overtaken : BusyStore :=
  (opened ⟨⟨[2]⟩, [], "log", 64, true⟩ []).run
    [.others (LoneStore.blank.save (.parameters (.sample 1)) [0xa1]).state.content]

/-- The store holds nothing by then, and a lookup finds the parameters. -/
theorem overtaken_finds :
    overtaken.store.catalog = .new [] ∧
      (overtaken.store.get [1] overtaken.content).result =
        .ok (some ((Parameters.sample 1).stamp ⟨[2]⟩)) := by
  let opening : Opening := ⟨⟨[2]⟩, [], "log", 64, true⟩
  let alone := LoneStore.opened opening (Frame.bytesOf [])
  have hnone : ∀ frame ∈ ([] : List Frame), frame.Fits := by simp
  have hallowed : opening.Allowed := ⟨_, rfl⟩
  obtain ⟨-, hlevel, hcatalog, -⟩ := LoneStore.opened_level hallowed hnone
  have hsettings : alone.store.settings = _ := LoneStore.settings_opened opening hnone
  have hsize : alone.store.log.frameSize = 64 := congrArg (·.2.2.2.1) hsettings
  obtain ⟨row, key, hkey, hrow, -, hsaved, -⟩ := LoneStore.blank_saved
  rw [← hsize] at hrow
  have hfresh : [0xa1] ∉ Frame.groupIds [] := by simp [Frame.groupIds]
  obtain ⟨after, hread, -, hheld, hkept⟩ := hlevel.read_row hrow hsaved.fits hfresh
  have hcontent : overtaken.content = alone.content ++ Frame.bytesOf row := by
    rw [← hsaved.content]
    rfl
  have hid : after.id = ⟨[2]⟩ := congrArg (·.1) (hkept.trans hsettings)
  have hfound : after.catalog.get? [1] = some (.sample 1) := by
    rw [hheld, hcatalog]
    exact (congrArg (·.get? [1]) (Catalog.hold_sample_one hkey)).trans
      ((Catalog.get?_insert ..).trans (if_pos rfl))
  refine ⟨hcatalog, ?_⟩
  have hunknown : overtaken.store.catalog.get? [1] = none := congrArg (·.get? [1]) hcatalog
  rw [FileStore.get_eq_seek, FileStore.seek_of_none hunknown, hcontent]
  refine (hread.andThen ⟨rfl, rfl⟩).result.trans ?_
  rw [hfound, hid]
  rfl

/-- Another store has saved parameters since a store has last read the log. The store finds nothing
to delete, though looking the parameters up would have found them, and it finds them afterwards. -/
theorem deleted_comes_back :
    (LoneStore.blank.save (.parameters (.sample 1)) [0xa1]).result = .ok true ∧
      (overtaken.store.get [1] overtaken.content).result =
        .ok (some ((Parameters.sample 1).stamp ⟨[2]⟩)) ∧
      (overtaken.store.delete (.sample 1)).result = .ok false ∧
      ((overtaken.store.delete (.sample 1)).state.get [1] overtaken.content).result =
        .ok (some ((Parameters.sample 1).stamp ⟨[2]⟩)) ∧
      ¬ FileStore.Forgets (·.get [1] overtaken.content) (overtaken.store.delete (.sample 1))
        overtaken.store overtaken.content := by
  obtain ⟨-, -, -, -, hsaved, -⟩ := LoneStore.blank_saved
  obtain ⟨hcatalog, hfound⟩ := overtaken_finds
  -- There is nothing to delete, so the store stays as it is.
  have hdelete : overtaken.store.delete (.sample 1) = .done overtaken.store false := by
    have hnothing : (Catalog.new []).delete (.sample 1) = (.ok false, .new []) := rfl
    simp only [FileStore.delete, hcatalog, hnothing]
    rw [← hcatalog]
    rfl
  rw [hdelete]
  refine ⟨hsaved, hfound, rfl, hfound, fun hforgets => ?_⟩
  have htold := hforgets.told.mpr ⟨_, hfound⟩
  contradiction

end BusyStore
end ParameterLog
