/-
Module: ParameterLog.Proofs.StoreRuns
Purpose: what stores can come to hold.
Main exports: MemoryStore.change, MemoryStore.changed, BusyStore, BusyStore.Move, BusyStore.step,
  BusyStore.run, BusyStore.store_step, BusyStore.kept_run, BusyStore.holds_run,
  BusyStore.exists_changes
-/
import ParameterLog.Proofs.CatalogChanges
import ParameterLog.Proofs.CurrentAnswers
import ParameterLog.Proofs.ReadingTimes
import ParameterLog.Proofs.Reconciling

/-!
A memory store comes to hold what saves and deletes make of its catalog (`MemoryStore.changed`).

A file store works on a log to which others append whatever they like, frames or not, at any moment
(`BusyStore`). A save takes its three steps one by one, so others may append between them. Whatever
happens, the store itself is only ever reconciled and deleted from (`store_step`), so what these two
keep holds all along (`kept_run`), and so does what a new catalog satisfies and taking entries in
and deleting keep (`holds_run`). Taking entries in is saving those for which there is a place, so
the catalog of a file store is one that saves and deletes lead to as well (`exists_changes`).
-/

namespace ParameterLog

namespace MemoryStore

/-- Makes a change; says whether anything was added or removed. -/
def change (store : MemoryStore) : Catalog.Change → Except StoreError Bool × MemoryStore
  | .save p => store.save p
  | .saveSet set => (.ok (store.saveSet set).1, (store.saveSet set).2)
  | .delete p => store.delete p
  | .deleteSet hash => (.ok (store.deleteSet hash).1, (store.deleteSet hash).2)

/-- The store after changes, one after the other. -/
def changed (store : MemoryStore) (changes : List Catalog.Change) : MemoryStore :=
  changes.foldl (fun store change => (store.change change).2) store

theorem change_eq (store : MemoryStore) (change : Catalog.Change) :
    store.change change = ((store.catalog.change change).1,
      { store with catalog := (store.catalog.change change).2 }) := by
  cases change <;> rfl

/-- A store changes as its catalog does. -/
theorem changed_eq (store : MemoryStore) (changes : List Catalog.Change) :
    store.changed changes = { store with catalog := store.catalog.changed changes } := by
  induction changes generalizing store with
  | nil => rfl
  | cons first rest ih =>
    have hfirst : (store.change first).2 =
        { store with catalog := (store.catalog.change first).2 } := by
      rw [change_eq]
    have hrest := ih (store.change first).2
    rw [hfirst] at hrest
    rw [changed, List.foldl_cons, hfirst]
    exact hrest

end MemoryStore

namespace Catalog

/-- Holding the content of an entry is saving it, if there is a place. -/
theorem exists_changes_hold (catalog : Catalog) (entry : Entry) :
    ∃ changes, catalog.hold entry.content = catalog.changed changes := by
  cases hcontent : entry.content with
  | parameters p key =>
    simp only [hold]
    split
    · next hroom =>
      refine ⟨[.save p], ?_⟩
      have hsave := save_of_hasRoom (Entry.named_of_content hcontent).2 hroom
      exact (congrArg (·.2) hsave).symm
    · exact ⟨[], rfl⟩
  | set record =>
    simp only [hold]
    split
    · exact ⟨[], rfl⟩
    · next hknown =>
      split
      · exact ⟨[], rfl⟩
      · next set hrestore =>
        have hfree : catalog.sets.contains set.hash = false := by
          rw [hash_of_restore hrestore]
          simpa [Table.contains, set?] using hknown
        refine ⟨[.saveSet set], ?_⟩
        simp [changed, change, saveSet, hfree]
  | nothing => exact ⟨[], rfl⟩

end Catalog

/-- A store and the content of a log that others append to as well. -/
structure BusyStore where
  store : FileStore
  content : Bytes
deriving Inhabited

namespace BusyStore

/-- What can happen next. -/
inductive Move where
  /-- Others append to the log. -/
  | others (more : Bytes)
  | check (saving : Saving)
  | append (saving : Saving) (group : Bytes)
  | confirm (saving : Saving)
  | ask (query : Query)
  | delete (p : Parameters)
  | deleteSet (hash : Bytes)
deriving Inhabited

/-- A store that is opened on a log. -/
def opened (opening : Opening) (content : Bytes) : BusyStore :=
  ⟨(opening.load content).state, content⟩

/-- Makes a move. -/
def step (busy : BusyStore) : Move → BusyStore
  | .others more => { busy with content := busy.content ++ more }
  | .check saving => { busy with store := (saving.check busy.content busy.store).state }
  | .append saving group =>
    let record := saving.record
    let appended := busy.store.append record.kind record.id record.data group busy.content
    { busy with content := appended.state }
  | .confirm saving => { busy with store := (saving.confirm busy.content busy.store).state }
  | .ask query => { busy with store := (busy.store.ask query busy.content).state }
  | .delete p => { busy with store := (busy.store.delete p).state }
  | .deleteSet hash => { busy with store := (busy.store.deleteSet hash).state }

/-- Makes moves one after the other. -/
def run (busy : BusyStore) (moves : List Move) : BusyStore := moves.foldl step busy

/-- A move does no more to a store than to reconcile it or to delete something from it. -/
theorem store_step (busy : BusyStore) (move : Move) :
    (busy.step move).store = busy.store ∨
      (busy.step move).store = (busy.store.reconcile busy.content).state ∨
      (∃ p, (busy.step move).store = (busy.store.delete p).state) ∨
      ∃ hash, (busy.step move).store = (busy.store.deleteSet hash).state := by
  have hreads {after : FileStore}
      (h : after = busy.store ∨ after = (busy.store.reconcile busy.content).state) :
      after = busy.store ∨ after = (busy.store.reconcile busy.content).state ∨
        (∃ p, after = (busy.store.delete p).state) ∨
        ∃ hash, after = (busy.store.deleteSet hash).state :=
    h.imp_right Or.inl
  cases move with
  | others more => exact .inl rfl
  | check saving => exact hreads (saving.state_check busy.content busy.store)
  | append saving group => exact .inl rfl
  | confirm saving => exact hreads (saving.state_confirm busy.content busy.store)
  | ask query => exact hreads (FileStore.state_ask query busy.content busy.store)
  | delete p => exact .inr (.inr (.inl ⟨p, rfl⟩))
  | deleteSet hash => exact .inr (.inr (.inr ⟨hash, rfl⟩))

/-- A store that has just been opened has the catalog of a reconciled one. -/
theorem store_opened (opening : Opening) (content : Bytes) :
    (opened opening content).store.id = opening.id ∧
      ∃ entries, (opened opening content).store.catalog =
        (Catalog.new opening.config).after entries := by
  have hstate : (opened opening content).store = (FileStore.reconcile content
      ⟨opening.id, .new opening.config,
        .opened opening.path opening.frameSize opening.writable⟩).state :=
    Outcome.state_andThen _ fun _ _ => rfl
  rw [hstate]
  exact FileStore.reconcile_cases _ _

/-- What reconciling and deleting keep holds of a store whatever happens to it. -/
theorem kept_run {P : FileStore → Prop} {busy : BusyStore} (h : P busy.store)
    (hreconcile : ∀ {store : FileStore} (content : Bytes),
      P store → P (store.reconcile content).state)
    (hdelete : ∀ {store : FileStore} (p : Parameters), P store → P (store.delete p).state)
    (hdeleteSet : ∀ {store : FileStore} (hash : Bytes), P store → P (store.deleteSet hash).state)
    (moves : List Move) : P (busy.run moves).store := by
  induction moves generalizing busy with
  | nil => exact h
  | cons first rest ih =>
    apply ih
    rcases store_step busy first with heq | heq | ⟨p, heq⟩ | ⟨hash, heq⟩
    · exact heq ▸ h
    · exact heq ▸ hreconcile busy.content h
    · exact heq ▸ hdelete p h
    · exact heq ▸ hdeleteSet hash h

/-- A store keeps its identity. -/
theorem id_run (opening : Opening) (base : Bytes) (moves : List Move) :
    ((opened opening base).run moves).store.id = opening.id := by
  refine kept_run (P := fun store => store.id = opening.id) (store_opened opening base).1 ?_ ?_ ?_
    moves
  · exact fun {store} content h => (FileStore.reconcile_cases store content).1.trans h
  · exact fun _ h => h
  · exact fun _ h => h

section Run

variable {P : Catalog → Prop} (hnew : ∀ config, P (.new config))
  (hhold : ∀ {catalog : Catalog} (entry : Entry), P catalog → P (catalog.hold entry.content))
  (hdelete : ∀ {catalog : Catalog} (p : Parameters), P catalog → P (catalog.delete p).2)
  (hdeleteSet : ∀ {catalog : Catalog} (hash : Bytes), P catalog → P (catalog.deleteSet hash).2)

include hnew hhold hdelete hdeleteSet in
/-- What a new catalog satisfies, and taking entries in and deleting keep, holds of a store whatever
has happened to it. -/
theorem holds_run (opening : Opening) (base : Bytes) (moves : List Move) :
    P ((opened opening base).run moves).store.catalog := by
  obtain ⟨-, entries, hcatalog⟩ := store_opened opening base
  have hopened := Catalog.holds_after hhold (hnew opening.config) entries
  rw [← hcatalog] at hopened
  refine kept_run (P := fun store => P store.catalog) hopened ?_ ?_ ?_ moves
  · intro store content h
    obtain ⟨-, entries, hread⟩ := FileStore.reconcile_cases store content
    rw [hread]
    exact Catalog.holds_after hhold h entries
  · exact fun p h => hdelete p h
  · exact fun hash h => hdeleteSet hash h

end Run

/-- The catalog of a file store is one that saves and deletes lead to. -/
theorem exists_changes (opening : Opening) (base : Bytes) (moves : List Move) :
    ∃ config changes, ((opened opening base).run moves).store.catalog =
      (Catalog.new config).changed changes := by
  refine holds_run (P := fun catalog => ∃ config changes,
    catalog = (Catalog.new config).changed changes) ?_ ?_ ?_ ?_ opening base moves
  · exact fun config => ⟨config, [], rfl⟩
  · rintro catalog entry ⟨config, changes, rfl⟩
    obtain ⟨more, hmore⟩ := ((Catalog.new config).changed changes).exists_changes_hold entry
    exact ⟨config, changes ++ more, by rw [hmore, Catalog.changed_append]⟩
  · rintro catalog p ⟨config, changes, rfl⟩
    refine ⟨config, changes ++ [.delete p], ?_⟩
    rw [Catalog.changed_concat, Catalog.change]
  · rintro catalog hash ⟨config, changes, rfl⟩
    refine ⟨config, changes ++ [.deleteSet hash], ?_⟩
    rw [Catalog.changed_concat, Catalog.change]

end BusyStore
end ParameterLog
