/-
Module: ParameterLog.FileStore
Purpose: a store on a log that other stores read and append to as well.
Main exports: FileStore, FileStore.load, FileStore.reconcile, FileStore.get, FileStore.find,
  FileStore.check, FileStore.append, FileStore.confirm, FileStore.save, FileStore.saveSet
-/
import ParameterLog.Log
import ParameterLog.MemoryStore
import ParameterLog.Catalog.Replay

/-!
A file store keeps a catalog and reconciles it with the content of its log: it reads what has been
added and takes the entries in. A lookup reconciles when the catalog does not know what is asked
for; a listing always does.

There is no lock between stores. A save reconciles and looks whether the parameters have a place,
appends their record, and reconciles again: the first complete record for a key in the log wins, so
by reading back what it wrote the store learns whether its record did. These three steps are
`check`, `append` and `confirm`; other stores may append between any two of them.

Deleting changes the catalog of this store and nothing else.
-/

namespace ParameterLog

/-- A store with a catalog of its own on a shared log. -/
structure FileStore where
  id : StoreId
  catalog : Catalog
  log : Log
deriving Inhabited

namespace FileStore

/-- Reports a log that ends inside a frame. -/
def tailEvents (store : FileStore) (reading : Reading) : List Event :=
  match reading.truncated with
  | some e => [.tailIncomplete store.log.path e]
  | none => []

/-- Takes the entries of a reading into the catalog. -/
def absorb (reading : Reading) (store : FileStore) : Outcome FileStore Unit :=
  let replayed := store.catalog.replay reading.entries
  (replayed.mapState fun catalog => { store with catalog := catalog }).reporting
    (store.tailEvents reading)

/-- Takes what has been added to the log since the last time into the catalog. -/
def reconcile (content : Bytes) (store : FileStore) : Outcome FileStore Unit :=
  ((store.log.read content).mapState fun log => { store with log := log }).andThen absorb

/-- Reconciles if the catalog does not have an answer. -/
def reconcileUnless (known : Bool) (content : Bytes) (store : FileStore) : Outcome FileStore Unit :=
  if known then .done store () else store.reconcile content

/-- A store on a log that has just been opened, with the content of the log in its catalog. -/
def load (id : StoreId) (config : Json.Members) (log : Log) (content : Bytes) :
    Outcome FileStore Unit :=
  (reconcile content ⟨id, .new config, log⟩).andThen fun _ store =>
    ⟨.ok (), store, [.loaded log.path store.catalog.byId.size store.catalog.sets.size]⟩

/-- The parameters with an identifier. -/
def get (id content : Bytes) (store : FileStore) : Outcome FileStore (Option Parameters) :=
  (store.reconcileUnless (store.catalog.get? id).isSome content).andThen fun _ store =>
    .done store (store.catalog.getFor? store.id id)

/-- The parameters for an action in its configuration and a group. -/
def find (action : Action) (group : ParameterGroup) (content : Bytes) (store : FileStore) :
    Outcome FileStore (Option Parameters) :=
  match store.catalog.find action group with
  | .error e => .fail store e
  | .ok known =>
    (store.reconcileUnless known.isSome content).andThen fun _ store =>
      .of store (store.catalog.findFor store.id action group)

/-- The set with a hash. -/
def getSet (hash content : Bytes) (store : FileStore) : Outcome FileStore (Option ParameterSet) :=
  (store.reconcileUnless (store.catalog.set? hash).isSome content).andThen fun _ store =>
    .done store (store.catalog.setFor? store.id hash)

/-- All parameters in the order of their identifiers. -/
def allParameters (content : Bytes) (store : FileStore) : Outcome FileStore (List Parameters) :=
  (store.reconcile content).andThen fun _ store =>
    .done store (store.catalog.allParametersFor store.id)

/-- All sets in the order of their hashes. -/
def allSets (content : Bytes) (store : FileStore) : Outcome FileStore (List ParameterSet) :=
  (store.reconcile content).andThen fun _ store => .done store (store.catalog.allSetsFor store.id)

/-- Appends a record to the log. -/
def append (store : FileStore) (kind : Entry.Kind) (id data group content : Bytes) :
    Outcome Bytes Unit :=
  (store.log.write ⟨kind, id, data⟩ group content).andThen fun _ content =>
    ⟨.ok (), content, [.appended kind.name id]⟩

/-- The first step of a save: says whether the parameters have a place. -/
def check (p : Parameters) (content : Bytes) (store : FileStore) : Outcome FileStore Bool :=
  if p.id.isEmpty then .fail store (.missingId "parameters")
  else
    match p.key with
    | .error e => .fail store e
    | .ok key =>
      (store.reconcile content).andThen fun _ store => .done store (store.catalog.hasRoom p.id key)

/-- Whether the catalog holds parameters that were appended, or others for their key. -/
def settle (p : Parameters) (key : LookupKey) (store : FileStore) : Outcome FileStore Bool :=
  if (store.catalog.get? p.id).isSome then .done store true
  else if (store.catalog.ofKey? key).isSome then ⟨.ok false, store, [.lostRace p.id key.text]⟩
  else .fail store (.readBackFailed p.id.hex)

/-- The last step of a save: says whether the record that was appended has won its key. -/
def confirm (p : Parameters) (content : Bytes) (store : FileStore) : Outcome FileStore Bool :=
  match p.key with
  | .error e => .fail store e
  | .ok key => (store.reconcile content).andThen fun _ store => store.settle p key

/-- Saves parameters under the group that is made up for their record; says whether they are new. -/
def save (p : Parameters) (group content : Bytes) (store : FileStore) :
    Outcome (FileStore × Bytes) Bool :=
  ((store.check p content).mapState (·, content)).andThen fun hasRoom (store, content) =>
    if hasRoom then
      ((store.append .parameters p.id p.toBytes group content).mapState (store, ·)).andThen
        fun _ (store, content) => (store.confirm p content).mapState (·, content)
    else .done (store, content) false

/-- The first member of a set that the catalog does not hold. -/
def missingMember? (store : FileStore) (set : ParameterSet) : Option Bytes :=
  set.ids.find? fun id => (store.catalog.get? id).isNone

/-- The first step of saving a set: says whether it has a place. -/
def checkSet (set : ParameterSet) (content : Bytes) (store : FileStore) : Outcome FileStore Bool :=
  (store.reconcile content).andThen fun _ store =>
    if (store.catalog.set? set.hash).isSome then .done store false
    else
      match store.missingMember? set with
      | some id => .fail store (.missingParameters id.hex)
      | none => .done store true

/-- The last step of saving a set: says that the record that was appended is there. -/
def confirmSet (set : ParameterSet) (content : Bytes) (store : FileStore) :
    Outcome FileStore Bool :=
  (store.reconcile content).andThen fun _ store =>
    if (store.catalog.set? set.hash).isSome then .done store true
    else .fail store (.readBackFailed set.hash.hex)

/-- Saves a set whose members are stored, under the group that is made up for its record; says
whether it is new. -/
def saveSet (set : ParameterSet) (group content : Bytes) (store : FileStore) :
    Outcome (FileStore × Bytes) Bool :=
  ((store.checkSet set content).mapState (·, content)).andThen fun hasRoom (store, content) =>
    if hasRoom then
      ((store.append .parameterSet set.hash set.toBytes group content).mapState (store, ·)).andThen
        fun _ (store, content) => (store.confirmSet set content).mapState (·, content)
    else .done (store, content) false

/-- Deletes parameters from the catalog; says whether an object with their identifier was held. -/
def delete (p : Parameters) (store : FileStore) : Outcome FileStore Bool :=
  let (result, catalog) := store.catalog.delete p
  .of { store with catalog := catalog } result

/-- Deletes the set with a hash from the catalog; says whether there was one. -/
def deleteSet (hash : Bytes) (store : FileStore) : Outcome FileStore Bool :=
  let (found, catalog) := store.catalog.deleteSet hash
  .done { store with catalog := catalog } found

end FileStore
end ParameterLog
