/-
Module: ParameterLog.Store
Purpose: stores and logs that are in use, with the files that they lie in.
Main exports: Log.openOn, FileStore.openOn, Store, StoreConfig.openOn, Store.get, Store.save
-/
import ParameterLog.StoreConfig
import ParameterLog.Disk
import ParameterLog.FileStore

/-!
Opening a log for writing makes the directories on the way and the file if they are missing, the
file readable for its owner alone; opening it for reading makes nothing. The frame size is looked at
before anything is made. A file store is loaded when it is opened and cannot be opened if that
fails.

Memory stores and file stores do the same things. What differs is that a memory store refuses a
second object for a key where a file store says that it is not new, and that a file store saves a
set only if its members are stored.
-/

namespace ParameterLog

/-- The permission bits of the files that stores make: reading and writing for the owner. -/
def logMode : Nat := 0o600

/-- A fault with a path, in words. -/
def pathError (action path : String) (fault : DiskFault) : StoreError :=
  .io s!"failed to {action} `{path}`: {fault.message}"

/-- The content of what was opened under a path; a directory has none. -/
def Disk.contentAt (disk : Disk) (place : Place) (path : String) : Except StoreError Bytes :=
  match disk.content? place with
  | some content => .ok content
  | none => .error (pathError "read from file" path .isADirectory)

/-- Makes the directory of a path and those around it, if it is missing. -/
def Disk.makeParent (disk : Disk) (path : String) : Except StoreError Unit × Disk :=
  match Path.parent? path with
  | none => (.ok (), disk)
  | some parent =>
    if parent.isEmpty || (disk.find? parent).isSome then (.ok (), disk)
    else
      match disk.makeDirectories (parent.length + 1) parent with
      | (.ok (), disk) => (.ok (), disk)
      | (.error fault, disk) => (.error (pathError "create directory" parent fault), disk)

namespace Log

/-- Opens the file of a log. -/
def openFile (path : String) (writable : Bool) (disk : Disk) : Except StoreError Place × Disk :=
  if writable then
    match disk.makeParent path with
    | (.error e, disk) => (.error e, disk)
    | (.ok (), disk) =>
      match disk.openToAppend path logMode with
      | .error fault => (.error (pathError "open file" path fault), disk)
      | .ok (place, disk) => (.ok place, disk)
  else ((disk.openToRead path).mapError (pathError "open file" path), disk)

/-- Opens a log for reading, and for appending if it is to be writable. -/
def openOn (disk : Disk) (path : String) (frameSize : Nat) (writable : Bool) :
    Outcome Disk (Log × Place) :=
  match Frame.capacity frameSize with
  | .error e => .fail disk e
  | .ok _ =>
    let (place, disk) := openFile path writable disk
    let log := opened path frameSize writable
    (Outcome.of disk place).andThen fun place disk => ⟨.ok (log, place), disk, [log.openedEvent]⟩

/-- Reads the file that a log lies in. -/
def readOn (disk : Disk) (place : Place) (log : Log) : Outcome Log Reading :=
  match disk.contentAt place log.path with
  | .error e => .fail log e
  | .ok content => log.read content

/-- Appends an entry to the file that a log lies in. -/
def writeOn (disk : Disk) (place : Place) (entry : Entry) (group : Bytes) (log : Log) :
    Outcome Disk Unit :=
  (log.write entry group ((disk.content? place).getD [])).mapState (disk.replaceContent place)

end Log

/-- Opens a file store and loads it. -/
def FileStore.openOn (disk : Disk) (id : StoreId) (path : String) (frameSize : Nat)
    (config : Json.Members) (writable : Bool) : Outcome Disk (FileStore × Place) :=
  (Log.openOn disk path frameSize writable).andThen fun (log, place) disk =>
    match disk.contentAt place path with
    | .error e => .fail disk e
    | .ok content =>
      let loaded := FileStore.load id config log content
      ⟨loaded.result.map fun _ => (loaded.state, place), disk, loaded.events⟩

/-- A store that is in use. -/
inductive Store where
  | memory (store : MemoryStore)
  | file (store : FileStore) (place : Place)
deriving Inhabited

/-- Opens the store that a configuration asks for. -/
def StoreConfig.openOn (disk : Disk) (home : String) (id : StoreId) :
    StoreConfig → Outcome Disk Store
  | .memory config => .done disk (.memory (.new id config))
  | .file config =>
    let path := config.path home
    (FileStore.openOn disk id path config.frameSize config.memoryConfig true).andThen
      fun (store, place) disk => ⟨.ok (.file store place), disk, [.openedStore path]⟩

namespace Store

/-- The identity of a store. -/
def id : Store → StoreId
  | .memory store => store.id
  | .file store _ => store.id

/-- What a store does when it is asked for something. -/
def look {α : Type} (disk : Disk) (store : Store) (inMemory : MemoryStore → Except StoreError α)
    (inFile : Bytes → FileStore → Outcome FileStore α) : Outcome Store α :=
  match store with
  | .memory store => .of (.memory store) (inMemory store)
  | .file store place =>
    (inFile ((disk.content? place).getD []) store).mapState fun store => .file store place

/-- What a store does when it is told something. -/
def change {α : Type} (disk : Disk) (store : Store)
    (inMemory : MemoryStore → Except StoreError α × MemoryStore)
    (inFile : Bytes → FileStore → Outcome (FileStore × Bytes) α) : Outcome (Store × Disk) α :=
  match store with
  | .memory store =>
    let (result, store) := inMemory store
    .of (.memory store, disk) result
  | .file store place =>
    (inFile ((disk.content? place).getD []) store).mapState fun (store, content) =>
      (.file store place, disk.replaceContent place content)

/-- The parameters with an identifier. -/
def get (disk : Disk) (id : Bytes) (store : Store) : Outcome Store (Option Parameters) :=
  store.look disk (fun memory => .ok (memory.get? id)) (FileStore.get id)

/-- The parameters for an action in its configuration and a group. -/
def find (disk : Disk) (action : Action) (group : ParameterGroup) (store : Store) :
    Outcome Store (Option Parameters) :=
  store.look disk (fun memory => memory.find action group) (FileStore.find action group)

/-- The set with a hash. -/
def getSet (disk : Disk) (hash : Bytes) (store : Store) : Outcome Store (Option ParameterSet) :=
  store.look disk (fun memory => .ok (memory.set? hash)) (FileStore.getSet hash)

/-- All parameters in the order of their identifiers. -/
def allParameters (disk : Disk) (store : Store) : Outcome Store (List Parameters) :=
  store.look disk (fun memory => .ok memory.allParameters) FileStore.allParameters

/-- All sets in the order of their hashes. -/
def allSets (disk : Disk) (store : Store) : Outcome Store (List ParameterSet) :=
  store.look disk (fun memory => .ok memory.allSets) FileStore.allSets

/-- Saves parameters, under the group that is made up for their record; says whether they are
new. -/
def save (disk : Disk) (p : Parameters) (group : Bytes) (store : Store) :
    Outcome (Store × Disk) Bool :=
  store.change disk (fun memory => memory.save p) (FileStore.save p group)

/-- Saves a set, under the group that is made up for its record; says whether it is new. -/
def saveSet (disk : Disk) (set : ParameterSet) (group : Bytes) (store : Store) :
    Outcome (Store × Disk) Bool :=
  store.change disk
    (fun memory => let (fresh, memory) := memory.saveSet set; (.ok fresh, memory))
    (FileStore.saveSet set group)

/-- Deletes parameters; says whether an object with their identifier was held. -/
def delete (disk : Disk) (p : Parameters) (store : Store) : Outcome (Store × Disk) Bool :=
  store.change disk (fun memory => memory.delete p)
    fun content file => (file.delete p).mapState (·, content)

/-- Deletes the set with a hash; says whether there was one. -/
def deleteSet (disk : Disk) (hash : Bytes) (store : Store) : Outcome (Store × Disk) Bool :=
  store.change disk
    (fun memory => let (found, memory) := memory.deleteSet hash; (.ok found, memory))
    fun content file => (file.deleteSet hash).mapState (·, content)

end Store
end ParameterLog
