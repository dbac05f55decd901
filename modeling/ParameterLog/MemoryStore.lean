/-
Module: ParameterLog.MemoryStore
Purpose: a store that keeps its objects in memory.
Main exports: MemoryStore, MemoryStore.get?, MemoryStore.find, MemoryStore.save
-/
import ParameterLog.Catalog

/-!
A memory store is a catalog with an identity. What it hands out carries the mark of the store; the
members of a set are handed out with the marks that they were saved with.
-/

namespace ParameterLog

namespace Catalog

/-- The parameters with an identifier, marked by a store. -/
def getFor? (catalog : Catalog) (store : StoreId) (id : Bytes) : Option Parameters :=
  (catalog.get? id).map (·.stamp store)

/-- The parameters for an action and a group, marked by a store. -/
def findFor (catalog : Catalog) (store : StoreId) (action : Action) (group : ParameterGroup) :
    Except StoreError (Option Parameters) :=
  (catalog.find action group).map fun found => found.map (·.stamp store)

/-- The set with a hash, marked by a store. -/
def setFor? (catalog : Catalog) (store : StoreId) (hash : Bytes) : Option ParameterSet :=
  (catalog.set? hash).map (·.stamp store)

/-- All parameters in the order of their identifiers, marked by a store. -/
def allParametersFor (catalog : Catalog) (store : StoreId) : List Parameters :=
  catalog.allParameters.map (·.stamp store)

/-- All sets in the order of their hashes, marked by a store. -/
def allSetsFor (catalog : Catalog) (store : StoreId) : List ParameterSet :=
  catalog.allSets.map (·.stamp store)

end Catalog

/-- A store without a log. -/
structure MemoryStore where
  id : StoreId
  catalog : Catalog
deriving Inhabited

namespace MemoryStore

/-- A store that holds nothing yet. -/
def new (id : StoreId) (config : Json.Members) : MemoryStore := ⟨id, .new config⟩

/-- The parameters with an identifier. -/
def get? (store : MemoryStore) (id : Bytes) : Option Parameters := store.catalog.getFor? store.id id

/-- The parameters for an action in its configuration and a group. -/
def find (store : MemoryStore) (action : Action) (group : ParameterGroup) :
    Except StoreError (Option Parameters) :=
  store.catalog.findFor store.id action group

/-- The set with a hash. -/
def set? (store : MemoryStore) (hash : Bytes) : Option ParameterSet :=
  store.catalog.setFor? store.id hash

/-- All parameters in the order of their identifiers. -/
def allParameters (store : MemoryStore) : List Parameters := store.catalog.allParametersFor store.id

/-- All sets in the order of their hashes. -/
def allSets (store : MemoryStore) : List ParameterSet := store.catalog.allSetsFor store.id

/-- Saves parameters; says whether they are new. -/
def save (store : MemoryStore) (p : Parameters) : Except StoreError Bool × MemoryStore :=
  let (result, catalog) := store.catalog.save p
  (result, { store with catalog := catalog })

/-- Saves a set; says whether it is new. -/
def saveSet (store : MemoryStore) (set : ParameterSet) : Bool × MemoryStore :=
  let (fresh, catalog) := store.catalog.saveSet set
  (fresh, { store with catalog := catalog })

/-- Deletes parameters; says whether an object with their identifier was held. -/
def delete (store : MemoryStore) (p : Parameters) : Except StoreError Bool × MemoryStore :=
  let (result, catalog) := store.catalog.delete p
  (result, { store with catalog := catalog })

/-- Deletes the set with a hash; says whether there was one. -/
def deleteSet (store : MemoryStore) (hash : Bytes) : Bool × MemoryStore :=
  let (found, catalog) := store.catalog.deleteSet hash
  (found, { store with catalog := catalog })

end MemoryStore
end ParameterLog
