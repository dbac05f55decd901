/-
Module: ParameterLog.Proofs.StoreReading
Purpose: what a store knows of a log that it reads from time to time.
Main exports: FileStore.HasTaken, FileStore.HasTaken.reconcile, FileStore.load_opened, Query,
  Answer, Catalog.answer, FileStore.ask, FileStore.HasTaken.ask, FileStore.state_ask
-/
import ParameterLog.FileStore
import ParameterLog.Proofs.CatalogReplay
import ParameterLog.Proofs.CursorReading

/-!
A store that nothing has been deleted from is described by the frames that it has read and the
entries that it has taken in, in the order it took them (`HasTaken`). Reconciling adds the frames
that the log shows by then and the entries that they settle. No other step changes a store, so what
a store answers is settled by the two: an answer that is in the catalog already is the one that the
catalog would give after reconciling, and for any other the store does reconcile
(`HasTaken.ask`).
-/

namespace ParameterLog

/-- A second operation that leaves the state alone leaves the state of the first. -/
theorem Outcome.state_andThen {σ α β : Type} (outcome : Outcome σ α) {next : α → σ → Outcome σ β}
    (h : ∀ answer state, (next answer state).state = state) :
    (outcome.andThen next).state = outcome.state := by
  cases hresult : outcome.result with
  | ok answer => simp [andThen_of_ok hresult, reporting, h]
  | error e => simp [andThen_of_error hresult]

/-- What a store is asked without asking it to change anything. -/
inductive Query where
  | byId (id : Bytes)
  | byKey (action : Action) (group : ParameterGroup)
  | byHash (hash : Bytes)
  | allParameters
  | allSets
deriving Inhabited

/-- What a store answers. -/
inductive Answer where
  | parameters (found : Option Parameters)
  | set (found : Option ParameterSet)
  | allParameters (all : List Parameters)
  | allSets (all : List ParameterSet)
deriving Inhabited

/-- Parameters without the mark of a store. -/
def Parameters.unmarked (p : Parameters) : Parameters := { p with store := none }

@[simp] theorem Parameters.unmarked_stamp (p : Parameters) (store : StoreId) :
    (p.stamp store).unmarked = p.unmarked := rfl

/-- A set without the mark of a store. -/
def ParameterSet.unmarked (set : ParameterSet) : ParameterSet := { set with store := none }

@[simp] theorem ParameterSet.unmarked_stamp (set : ParameterSet) (store : StoreId) :
    (set.stamp store).unmarked = set.unmarked := rfl

namespace Answer

/-- An answer as given by a store. -/
def stamp (store : StoreId) : Answer → Answer
  | .parameters found => .parameters (found.map (·.stamp store))
  | .set found => .set (found.map (·.stamp store))
  | .allParameters all => .allParameters (all.map (·.stamp store))
  | .allSets all => .allSets (all.map (·.stamp store))

/-- An answer without the mark of a store. -/
def unmarked : Answer → Answer
  | .parameters found => .parameters (found.map (·.unmarked))
  | .set found => .set (found.map (·.unmarked))
  | .allParameters all => .allParameters (all.map (·.unmarked))
  | .allSets all => .allSets (all.map (·.unmarked))

@[simp] theorem unmarked_stamp (answer : Answer) (store : StoreId) :
    (answer.stamp store).unmarked = answer.unmarked := by
  cases answer <;> simp [stamp, unmarked, Function.comp_def]

end Answer

/-- What a catalog answers. -/
def Catalog.answer (catalog : Catalog) : Query → Except StoreError Answer
  | .byId id => .ok (.parameters (catalog.get? id))
  | .byKey action group => (catalog.find action group).map .parameters
  | .byHash hash => .ok (.set (catalog.set? hash))
  | .allParameters => .ok (.allParameters catalog.allParameters)
  | .allSets => .ok (.allSets catalog.allSets)

/-- What a catalog answers does not depend on its configuration. -/
theorem Catalog.answer_after_new (config : Json.Members) (entries : List Entry) (query : Query) :
    ((Catalog.new config).after entries).answer query =
      ((Catalog.new []).after entries).answer query := by
  rw [after_new]
  cases query <;> rfl

namespace FileStore

open ParameterLog.Frame (Shows Continues)
open Cursor (given)

/-- Asks a store. -/
def ask (query : Query) (content : Bytes) (store : FileStore) : Outcome FileStore Answer :=
  match query with
  | .byId id => (store.get id content).map .parameters
  | .byKey action group => (store.find action group content).map .parameters
  | .byHash hash => (store.getSet hash content).map .set
  | .allParameters => (store.allParameters content).map .allParameters
  | .allSets => (store.allSets content).map .allSets

/-- What is fixed when a store is opened: its identity, its configuration, the path of its log, the
size of the frames it writes and whether it can write. -/
def settings (store : FileStore) : StoreId × Json.Members × String × Nat × Bool :=
  (store.id, store.catalog.config, store.log.path, store.log.frameSize, store.log.writable)

/-- The store has read frames and has taken in entries, and nothing has been deleted. -/
structure HasTaken (store : FileStore) (frames : List Frame) (entries : List Entry) : Prop where
  cursor : store.log.cursor.HasRead frames
  catalog : store.catalog = (Catalog.new store.catalog.config).after entries

theorem config_after (catalog : Catalog) (entries : List Entry) :
    (catalog.after entries).config = catalog.config := by
  have hconfig := Catalog.after_config catalog catalog.config entries
  have hself : { catalog with config := catalog.config } = catalog := rfl
  rw [hself] at hconfig
  rw [hconfig]

/-- The entries of a reading are taken in, and that never fails. -/
theorem absorb_eq (reading : Reading) (store : FileStore) :
    (absorb reading store).result = .ok () ∧
      (absorb reading store).state =
        { store with catalog := store.catalog.after reading.entries } :=
  ⟨Catalog.result_replay _ _, rfl⟩

variable {store : FileStore} {xs ys : List Frame} {entries : List Entry} {content : Bytes}

/-- Reconciling reads what the log shows by then, and never fails. -/
theorem HasTaken.reconcile (h : store.HasTaken xs entries) (hshows : Shows content (xs ++ ys))
    (hcontinues : Continues xs ys) :
    (store.reconcile content).result = .ok () ∧
      (store.reconcile content).state.HasTaken (xs ++ ys) (entries ++ given xs ys) ∧
      (store.reconcile content).state.settings = store.settings := by
  obtain ⟨⟨truncated, hresult⟩, hread⟩ := h.cursor.read hshows hcontinues store.log.path
  have hreading : ((store.log.read content).mapState fun log => { store with log := log }).result =
      .ok ⟨given xs ys, truncated⟩ := hresult
  have hreconcile : store.reconcile content = _ := Outcome.andThen_of_ok hreading absorb
  obtain ⟨hdone, hstate⟩ := absorb_eq ⟨given xs ys, truncated⟩
    { store with log := (store.log.read content).state }
  have hcatalog : store.catalog.after (given xs ys) =
      (Catalog.new store.catalog.config).after (entries ++ given xs ys) := by
    rw [Catalog.after_append, ← h.catalog]
  rw [hreconcile]
  refine ⟨hdone, ?_, ?_⟩
  · simp only [Outcome.reporting, Outcome.mapState, hstate]
    refine ⟨hread, ?_⟩
    dsimp only
    rw [config_after, hcatalog]
  · simp only [Outcome.reporting, Outcome.mapState, hstate, settings, config_after]
    rfl

/-- A store that has just been opened has taken in what the log shows. -/
theorem load_opened {frames : List Frame} (h : Shows content frames) (id : StoreId)
    (config : Json.Members) (path : String) (frameSize : Nat) (writable : Bool) :
    let loaded := load id config (.opened path frameSize writable) content
    loaded.result = .ok () ∧
      loaded.state.HasTaken frames ((Assembly.found frames).map (·.2)) ∧
      loaded.state.settings = (id, config, path, frameSize, writable) := by
  intro loaded
  have hblank : HasTaken ⟨id, .new config, .opened path frameSize writable⟩ [] [] :=
    ⟨Cursor.hasRead_start, rfl⟩
  have hcontinues : Continues [] frames := by
    intro frame _ hbegun
    simp [Frame.groupIds] at hbegun
  obtain ⟨hresult, htaken, hsettings⟩ := hblank.reconcile h hcontinues
  have hloaded : loaded = _ := Outcome.andThen_of_ok hresult _
  rw [hloaded]
  exact ⟨rfl, htaken, hsettings⟩

/-! ### Asking -/

theorem state_reconcileUnless (known : Bool) (content : Bytes) (store : FileStore) :
    (store.reconcileUnless known content).state = store ∨
      (store.reconcileUnless known content).state = (store.reconcile content).state := by
  cases known with
  | true => exact .inl rfl
  | false => exact .inr rfl

/-- What the catalog of a store holds is handed out without reading the log. -/
theorem ask_byId_of_held {id : Bytes} {p : Parameters} (h : store.catalog.get? id = some p)
    (content : Bytes) :
    store.ask (.byId id) content = .done store (.parameters (some (p.stamp store.id))) := by
  simp only [ask, get, reconcileUnless, Catalog.getFor?, h, Option.isSome_some, if_true,
    Outcome.andThen_done]
  rfl

theorem ask_byKey_of_held {action : Action} {group : ParameterGroup} {p : Parameters}
    (h : store.catalog.find action group = .ok (some p)) (content : Bytes) :
    store.ask (.byKey action group) content =
      .done store (.parameters (some (p.stamp store.id))) := by
  simp only [ask, find, reconcileUnless, Catalog.findFor, h, Option.isSome_some, if_true,
    Outcome.andThen_done]
  rfl

/-- Asking does no more to a store than to reconcile it. -/
theorem state_ask (query : Query) (content : Bytes) (store : FileStore) :
    (store.ask query content).state = store ∨
      (store.ask query content).state = (store.reconcile content).state := by
  cases query with
  | byId id =>
    simp only [ask, get, Outcome.map]
    rw [Outcome.state_andThen _ fun _ _ => rfl]
    exact state_reconcileUnless ..
  | byKey action group =>
    simp only [ask, find, Outcome.map]
    cases store.catalog.find action group with
    | error e => exact .inl rfl
    | ok known =>
      dsimp only
      rw [Outcome.state_andThen _ fun _ _ => rfl]
      exact state_reconcileUnless ..
  | byHash hash =>
    simp only [ask, getSet, Outcome.map]
    rw [Outcome.state_andThen _ fun _ _ => rfl]
    exact state_reconcileUnless ..
  | allParameters =>
    simp only [ask, allParameters, Outcome.map]
    exact .inr (Outcome.state_andThen _ fun _ _ => rfl)
  | allSets =>
    simp only [ask, allSets, Outcome.map]
    exact .inr (Outcome.state_andThen _ fun _ _ => rfl)

theorem state_settle (p : Parameters) (key : LookupKey) (store : FileStore) :
    (store.settle p key).state = store := by
  unfold settle
  split
  · rfl
  · split <;> rfl

/-- The steps of a save besides appending do no more to a store than to reconcile it. -/
theorem state_check (p : Parameters) (content : Bytes) (store : FileStore) :
    (store.check p content).state = store ∨
      (store.check p content).state = (store.reconcile content).state := by
  unfold check
  split
  · exact .inl rfl
  · split
    · exact .inl rfl
    · exact .inr (Outcome.state_andThen _ fun _ _ => rfl)

theorem state_confirm (p : Parameters) (content : Bytes) (store : FileStore) :
    (store.confirm p content).state = store ∨
      (store.confirm p content).state = (store.reconcile content).state := by
  unfold confirm
  split
  · exact .inl rfl
  · exact .inr (Outcome.state_andThen _ fun _ store => state_settle ..)

theorem state_checkSet (set : ParameterSet) (content : Bytes) (store : FileStore) :
    (store.checkSet set content).state = (store.reconcile content).state := by
  unfold checkSet
  refine Outcome.state_andThen _ fun _ store => ?_
  split
  · rfl
  · split <;> rfl

theorem state_confirmSet (set : ParameterSet) (content : Bytes) (store : FileStore) :
    (store.confirmSet set content).state = (store.reconcile content).state := by
  unfold confirmSet
  apply Outcome.state_andThen _
  intro _ store
  split <;> rfl

/-- What a store answers is what its catalog would answer after taking in what the log shows. -/
theorem HasTaken.ask (h : store.HasTaken xs entries) (hshows : Shows content (xs ++ ys))
    (hcontinues : Continues xs ys) (query : Query) :
    (store.ask query content).result =
      (((Catalog.new store.catalog.config).after (entries ++ given xs ys)).answer query).map
        (·.stamp store.id) := by
  obtain ⟨hresult, htaken, hsettings⟩ := h.reconcile hshows hcontinues
  have hid : (store.reconcile content).state.id = store.id := congrArg (·.1) hsettings
  have hconfig : (store.reconcile content).state.catalog.config = store.catalog.config :=
    congrArg (·.2.1) hsettings
  have hcatalog := htaken.catalog
  rw [hconfig] at hcatalog
  have hextends : Catalog.Extends store.catalog
      ((Catalog.new store.catalog.config).after (entries ++ given xs ys)) := by
    rw [Catalog.after_append, ← h.catalog]
    exact Catalog.extends_after _ _
  cases query with
  | byId id =>
    simp only [FileStore.ask, FileStore.get, Catalog.answer]
    cases hknown : store.catalog.get? id with
    | some p =>
      simp [reconcileUnless, Outcome.andThen, Outcome.map, Outcome.done, Outcome.reporting,
        Catalog.getFor?, hknown, Except.map, Answer.stamp, hextends.get? hknown]
    | none =>
      simp [reconcileUnless, Outcome.andThen_of_ok hresult, Outcome.map, Outcome.done,
        Outcome.reporting, Catalog.getFor?, Except.map, Answer.stamp, hid, hcatalog]
  | byKey action group =>
    simp only [FileStore.ask, FileStore.find, Catalog.answer, Catalog.find, Catalog.findFor]
    cases hkey : LookupKey.of action group with
    | error e => rfl
    | ok key =>
      cases hknown : store.catalog.ofKey? key with
      | some p =>
        simp [reconcileUnless, Outcome.map, Outcome.of, hknown, Except.map, Answer.stamp,
          hextends.ofKey? hknown]
      | none =>
        simp [reconcileUnless, Outcome.andThen_of_ok hresult, Outcome.map, Outcome.of,
          Outcome.reporting, hknown, Except.map, Answer.stamp, hid, hcatalog]
  | byHash hash =>
    simp only [FileStore.ask, FileStore.getSet, Catalog.answer]
    cases hknown : store.catalog.set? hash with
    | some set =>
      simp [reconcileUnless, Outcome.andThen, Outcome.map, Outcome.done, Outcome.reporting,
        Catalog.setFor?, hknown, Except.map, Answer.stamp, hextends.set? hknown]
    | none =>
      simp [reconcileUnless, Outcome.andThen_of_ok hresult, Outcome.map, Outcome.done,
        Outcome.reporting, Catalog.setFor?, Except.map, Answer.stamp, hid, hcatalog]
  | allParameters =>
    simp [FileStore.ask, FileStore.allParameters, Catalog.answer, Outcome.andThen_of_ok hresult,
      Outcome.map, Outcome.done, Outcome.reporting, Catalog.allParametersFor, Except.map,
      Answer.stamp, hid, hcatalog]
  | allSets =>
    simp [FileStore.ask, FileStore.allSets, Catalog.answer, Outcome.andThen_of_ok hresult,
      Outcome.map, Outcome.done, Outcome.reporting, Catalog.allSetsFor, Except.map,
      Answer.stamp, hid, hcatalog]

end FileStore
end ParameterLog
