/-
Module: ParameterLog.Catalog
Purpose: the objects that a store holds in memory.
Main exports: Catalog, Catalog.find, Catalog.save, Catalog.delete, Catalog.saveSet,
  Catalog.deleteSet
-/
import ParameterLog.ParameterSet
import ParameterLog.Table

/-!
A catalog holds parameters by identifier and parameter sets by hash, and binds each lookup key to
the identifier of the parameters that were saved under it. A key leads to an object as long as one
with that identifier is held.

Saving fails if the key leads to an object with another identifier, and changes nothing if the
identifier is taken. Deleting goes by the identifier and by the key of the object that is given: the
key is freed if it is bound to that identifier. Should the object held under the identifier have
another key, then that key stays bound and leads nowhere, until it is bound anew or the identifier
is used again.
-/

namespace ParameterLog

/-- Parameters by identifier and by key, and parameter sets by hash. -/
structure Catalog where
  /-- The configuration that the catalog was made with. -/
  config : Json.Members
  byId : Table Bytes Parameters
  idOfKey : Table LookupKey Bytes
  sets : Table Bytes ParameterSet
deriving Inhabited

namespace Catalog

/-- A catalog that holds nothing. -/
def new (config : Json.Members) : Catalog := ⟨config, .empty, .empty, .empty⟩

/-- The parameters with an identifier. -/
def get? (catalog : Catalog) (id : Bytes) : Option Parameters := catalog.byId.find? id

/-- The parameters for a key. -/
def ofKey? (catalog : Catalog) (key : LookupKey) : Option Parameters :=
  (catalog.idOfKey.find? key).bind catalog.byId.find?

/-- The parameters for an action in its configuration and a group. -/
def find (catalog : Catalog) (action : Action) (group : ParameterGroup) :
    Except StoreError (Option Parameters) :=
  (LookupKey.of action group).map catalog.ofKey?

/-- The set with a hash. -/
def set? (catalog : Catalog) (hash : Bytes) : Option ParameterSet := catalog.sets.find? hash

/-- All parameters in the order of their identifiers. -/
def allParameters (catalog : Catalog) : List Parameters :=
  catalog.byId.values.mergeSort fun a b => decide (a.id ≤ b.id)

/-- All sets in the order of their hashes. -/
def allSets (catalog : Catalog) : List ParameterSet :=
  catalog.sets.values.mergeSort fun a b => decide (a.hash ≤ b.hash)

/-- Holds parameters under their identifier and their key. -/
def insert (catalog : Catalog) (key : LookupKey) (p : Parameters) : Catalog :=
  { catalog with idOfKey := catalog.idOfKey.insert key p.id, byId := catalog.byId.insert p.id p }

/-- Saves parameters; says whether they are new. -/
def save (catalog : Catalog) (p : Parameters) : Except StoreError Bool × Catalog :=
  match p.key with
  | .error e => (.error e, catalog)
  | .ok key =>
    match catalog.ofKey? key with
    | some existing =>
      if existing.id = p.id then (.ok false, catalog)
      else (.error (.duplicateKey key.text), catalog)
    | none =>
      if catalog.byId.contains p.id then (.ok false, catalog) else (.ok true, catalog.insert key p)

/-- Saves a set; says whether it is new. -/
def saveSet (catalog : Catalog) (set : ParameterSet) : Bool × Catalog :=
  if catalog.sets.contains set.hash then (false, catalog)
  else (true, { catalog with sets := catalog.sets.insert set.hash set })

/-- Frees a key if it is bound to an identifier. -/
def freeKey (catalog : Catalog) (key : LookupKey) (id : Bytes) : Catalog :=
  if catalog.idOfKey.find? key = some id then
    { catalog with idOfKey := catalog.idOfKey.erase key }
  else catalog

/-- Lets go of the parameters with an identifier. -/
def withoutId (catalog : Catalog) (id : Bytes) : Catalog :=
  { catalog with byId := catalog.byId.erase id }

/-- Deletes parameters; says whether an object with their identifier was held. -/
def delete (catalog : Catalog) (p : Parameters) : Except StoreError Bool × Catalog :=
  match p.key with
  | .error e => (.error e, catalog)
  | .ok key =>
    (.ok (catalog.byId.contains p.id), (catalog.freeKey key p.id).withoutId p.id)

/-- Deletes the set with a hash; says whether there was one. -/
def deleteSet (catalog : Catalog) (hash : Bytes) : Bool × Catalog :=
  (catalog.sets.contains hash, { catalog with sets := catalog.sets.erase hash })

end Catalog
end ParameterLog
