/-
Module: ParameterLog.Proofs.Refinement
Purpose: a store on a log of its own does what a store in memory does.
Main exports: Store.Command, Store.perform, Store.replies, Store.Admissible, Store.Mirrors,
  Store.Mirrors.perform, Store.file_refines_memory
-/
import ParameterLog.Proofs.Sameness
import ParameterLog.Proofs.SharedLog
import ParameterLog.Proofs.SoleWriter
import ParameterLog.Store

/-!
A file store on a new file that nobody else writes and a memory store are given the same commands.
The file store holds what the records were read back as and the memory store what was saved, so
their objects are the same but not equal; their catalogs have one plain form all along
(`Mirrors`). One command keeps that up and is answered alike (`Mirrors.perform`), and so is a
sequence of commands (`file_refines_memory`). The two stores differ in one reply only: that
parameters are not new is an error in memory if others have their key.
-/

namespace ParameterLog

namespace Store

/-- What a store is told or asked. The group of a record that is saved is made up by the store. -/
inductive Command where
  | save (p : Parameters) (group : Bytes)
  | saveSet (set : ParameterSet) (group : Bytes)
  | delete (p : Parameters)
  | deleteSet (hash : Bytes)
  | ask (query : Query)
deriving Inhabited

/-- What a store replies. -/
inductive Reply where
  | saved (fresh : Bool)
  | savedSet (fresh : Bool)
  | deleted (found : Bool)
  | deletedSet (found : Bool)
  | answered (answer : Answer)
deriving Inhabited

/-- Asks a store. -/
def ask (disk : Disk) (store : Store) : Query → Outcome Store Answer
  | .byId id => (store.get disk id).map .parameters
  | .byKey action group => (store.find disk action group).map .parameters
  | .byHash hash => (store.getSet disk hash).map .set
  | .allParameters => (store.allParameters disk).map .allParameters
  | .allSets => (store.allSets disk).map .allSets

/-- Has a store do something. -/
def perform (store : Store) (disk : Disk) : Command → Outcome (Store × Disk) Reply
  | .save p group => (store.save disk p group).map .saved
  | .saveSet set group => (store.saveSet disk set group).map .savedSet
  | .delete p => (store.delete disk p).map .deleted
  | .deleteSet hash => (store.deleteSet disk hash).map .deletedSet
  | .ask query => ((store.ask disk query).mapState (·, disk)).map .answered

/-- The replies of a store to commands, one after the other. -/
def replies : List Command → Store → Disk → List (Except StoreError Reply)
  | [], _, _ => []
  | command :: rest, store, disk =>
    let outcome := store.perform disk command
    outcome.result :: replies rest outcome.state.1 outcome.state.2

/-- The catalog of a store. -/
def catalog : Store → Catalog
  | .memory store => store.catalog
  | .file store _ => store.catalog

/-- The parameters are read back from their record as the same parameters. -/
def Survives (p : Parameters) : Prop :=
  ∃ q, Parameters.ofBytes p.toBytes = .ok q ∧ q.same p = true

/-- What may be saved while a store holds a catalog: records that are small enough, of parameters
that have an identifier and survive, and of sets whose members are held as they are. A group has to
fit its field, as the sixteen bytes that stores make up do. -/
def Command.Allowed (held : Catalog) : Command → Prop
  | .save p group =>
    p.id ≠ [] ∧ Survives p ∧ (Saving.parameters p).record.size ≤ greatestEntrySize ∧
      group.length ≤ greatestField
  | .saveSet set group =>
    (∀ p ∈ set.members, ∃ q, held.get? p.id = some q ∧ q.same p = true) ∧
      (Saving.set set).record.size ≤ greatestEntrySize ∧ group.length ≤ greatestField
  | _ => True

/-- Every command is allowed when its turn comes. -/
def Admissible : List Command → Store → Disk → Prop
  | [], _, _ => True
  | command :: rest, store, disk =>
    command.Allowed store.catalog ∧
      Admissible rest (store.perform disk command).state.1 (store.perform disk command).state.2

/-- Two answers hold the same objects. -/
inductive SameAnswer : Answer → Answer → Prop
  | parameters {found other : Option Parameters}
    (same : Option.Rel (fun p q => p.same q = true) found other) :
    SameAnswer (.parameters found) (.parameters other)
  | set {found other : Option ParameterSet}
    (same : Option.Rel (fun s t => s.same t = true) found other) :
    SameAnswer (.set found) (.set other)
  | allParameters {all others : List Parameters}
    (same : List.Forall₂ (fun p q => p.same q = true) all others) :
    SameAnswer (.allParameters all) (.allParameters others)
  | allSets {all others : List ParameterSet}
    (same : List.Forall₂ (fun s t => s.same t = true) all others) :
    SameAnswer (.allSets all) (.allSets others)

/-- A reply of a file store agrees with one of a memory store: they are equal but for answers, which
hold the same objects, and for parameters that are not new, which may be an error in memory. -/
inductive Agree : Except StoreError Reply → Except StoreError Reply → Prop
  | same (reply : Except StoreError Reply) : Agree reply reply
  | answered {answer other : Answer} (same : SameAnswer answer other) :
    Agree (.ok (.answered answer)) (.ok (.answered other))
  | known (key : String) : Agree (.ok (.saved false)) (.error (.duplicateKey key))

/-! ### Answers -/

theorem rel_of_map_eq {α : Type} {plain : α → α} {same : α → α → Bool}
    (hsame : ∀ a b, same a b = true ↔ plain a = plain b) {found other : Option α}
    (h : found.map plain = other.map plain) :
    Option.Rel (fun a b => same a b = true) found other := by
  cases found with
  | none =>
    cases other with
    | none => exact .none
    | some b => contradiction
  | some a =>
    cases other with
    | none => contradiction
    | some b => exact .some ((hsame a b).mpr (Option.some.inj h))

theorem forall₂_of_map_eq {α : Type} {plain : α → α} {same : α → α → Bool}
    (hsame : ∀ a b, same a b = true ↔ plain a = plain b) {all others : List α}
    (h : all.map plain = others.map plain) :
    List.Forall₂ (fun a b => same a b = true) all others := by
  have hplain : List.Forall₂ (fun a b => plain a = plain b) all others := by
    rwa [← List.forall₂_eq_eq_eq, List.forall₂_map_left_iff, List.forall₂_map_right_iff] at h
  exact hplain.imp fun a b => (hsame a b).mpr

/-- Answers of one plain form hold the same objects. -/
theorem sameAnswer_of_plain {answer other : Answer} (h : answer.plain = other.plain) :
    SameAnswer answer other := by
  cases answer with
  | parameters found =>
    cases other with
    | parameters others => exact .parameters (rel_of_map_eq Parameters.same_iff (by injection h))
    | _ => contradiction
  | set found =>
    cases other with
    | set others => exact .set (rel_of_map_eq ParameterSet.same_iff (by injection h))
    | _ => contradiction
  | allParameters all =>
    cases other with
    | allParameters others =>
      exact .allParameters (forall₂_of_map_eq Parameters.same_iff (by injection h))
    | _ => contradiction
  | allSets all =>
    cases other with
    | allSets others => exact .allSets (forall₂_of_map_eq ParameterSet.same_iff (by injection h))
    | _ => contradiction

/-! ### One command -/

/-- The file store is abreast of its file, and the memory store holds the same objects. -/
structure Mirrors (file : FileStore) (place : Place) (disk : Disk) (memory : MemoryStore) :
    Prop where
  abreast : ∃ content, disk.content? place = some content ∧ file.Abreast content
  alike : file.catalog.plain = memory.catalog.plain

/-- A file store and a memory store did something that they agree on, and mirror each other. -/
def Concur (place : Place) (elsewhere : Disk) (left right : Outcome (Store × Disk) Reply) : Prop :=
  ∃ file disk memory, left.state = (.file file place, disk) ∧
    right.state = (.memory memory, elsewhere) ∧ Agree left.result right.result ∧
    Mirrors file place disk memory

theorem content?_replaceContent {disk : Disk} {place : Place} {content : Bytes}
    (h : disk.content? place = some content) (more : Bytes) :
    (disk.replaceContent place more).content? place = some more := by
  rw [Disk.content?] at h
  split at h
  · next kept mode hnode =>
    have hplace : place.isEmpty = false := by
      rw [Disk.node?] at hnode
      split at hnode
      · simp at hnode
      · next hne => simpa using hne
    rw [Disk.replaceContent, hnode, Disk.content?, Disk.node?, hplace]
    simp [Disk.put, Table.find?_insert]
  · contradiction

section Perform

variable {file : FileStore} {place : Place} {disk : Disk} {content : Bytes}

theorem change_file {α : Type} (hcontent : disk.content? place = some content)
    {inMemory : MemoryStore → Except StoreError α × MemoryStore}
    {inFile : Bytes → FileStore → Outcome (FileStore × Bytes) α}
    {result : Except StoreError α} {after : FileStore} {more : Bytes}
    (h : (inFile content file).Yields result (after, more)) :
    ((Store.file file place).change disk inMemory inFile).Yields result
      (.file after place, disk.replaceContent place more) := by
  rw [change, hcontent, Option.getD_some]
  exact h.mapState _

variable {memory : MemoryStore} {elsewhere : Disk} {left right : Outcome (Store × Disk) Reply}

theorem Concur.of_yields {result reply : Except StoreError Reply} {more : Bytes}
    (hcontent : disk.content? place = some content)
    (hleft : left.Yields result (.file file place, disk.replaceContent place more))
    (hright : right.Yields reply (.memory memory, elsewhere)) (hagree : Agree result reply)
    (habreast : file.Abreast more) (halike : file.catalog.plain = memory.catalog.plain) :
    Concur place elsewhere left right := by
  refine ⟨file, disk.replaceContent place more, memory, hleft.state, hright.state, ?_, ?_⟩
  · rw [hleft.result, hright.result]
    exact hagree
  · exact ⟨⟨more, content?_replaceContent hcontent more, habreast⟩, halike⟩

/-- In memory, parameters that have no place are known or have the key of others. -/
theorem save_without_room {catalog : Catalog} {p : Parameters} {key : LookupKey}
    (hkey : p.key = .ok key) (hroom : catalog.hasRoom p.id key = false) :
    ∃ reply, catalog.save p = (reply, catalog) ∧ Agree (.ok (.saved false)) (reply.map .saved) := by
  simp only [Catalog.save, hkey]
  cases hheld : catalog.ofKey? key with
  | some other =>
    by_cases hid : other.id = p.id
    · exact ⟨.ok false, if_pos hid, .same _⟩
    · exact ⟨.error (.duplicateKey key.text), if_neg hid, .known _⟩
  | none =>
    have htaken : catalog.byId.contains p.id = true := by
      rw [Catalog.hasRoom, hheld, Catalog.get?] at hroom
      simpa [Table.contains, Option.isSome_iff_ne_none] using hroom
    exact ⟨.ok false, if_pos htaken, .same _⟩

/-- Saving parameters is answered alike. -/
theorem Mirrors.save (h : Mirrors file place disk memory) {p : Parameters} {group : Bytes}
    (hallowed : (Command.save p group).Allowed memory.catalog) (elsewhere : Disk) :
    Concur place elsewhere ((Store.file file place).perform disk (.save p group))
      ((Store.memory memory).perform elsewhere (.save p group)) := by
  obtain ⟨content, hcontent, habreast⟩ := h.abreast
  obtain ⟨hid, ⟨q, hread, hsame⟩, hsize, hgroup⟩ := hallowed
  have hfile {result : Except StoreError Bool} {after : FileStore} {more : Bytes}
      (hsave : (file.save p group content).Yields result (after, more)) :
      ((Store.file file place).perform disk (.save p group)).Yields (result.map .saved)
        (.file after place, disk.replaceContent place more) :=
    (change_file hcontent hsave).map Reply.saved
  have hmemory {reply : Except StoreError Bool} {after : Catalog}
      (hsave : memory.catalog.save p = (reply, after)) :
      ((Store.memory memory).perform elsewhere (.save p group)).Yields (reply.map .saved)
        (.memory { memory with catalog := after }, elsewhere) := by
    rw [perform, Store.save, change, MemoryStore.save, hsave]
    exact ⟨rfl, rfl⟩
  cases hkey : p.key with
  | error e =>
    have hrefused := FileStore.save_keyless hid hkey group content file
    have hsave : memory.catalog.save p = (.error e, memory.catalog) := by
      rw [Catalog.save, hkey]
    exact .of_yields hcontent (hfile hrefused) (hmemory hsave) (.same _) habreast h.alike
  | ok key =>
    have hplain : file.catalog.hasRoom p.id key = memory.catalog.hasRoom p.id key := by
      rw [← Catalog.hasRoom_plain, h.alike, Catalog.hasRoom_plain]
    cases hroom : file.catalog.hasRoom p.id key with
    | false =>
      have hknown := habreast.settled.save_known hid hkey hroom group
      obtain ⟨reply, hsave, hagree⟩ := save_without_room hkey (hplain ▸ hroom)
      exact .of_yields hcontent (hfile hknown) (hmemory hsave) hagree habreast h.alike
    | true =>
      obtain ⟨hnamed, hkeyed⟩ := Parameters.key_of_echo (p.ofBytes_toBytes.symm.trans hread) hsame
      obtain ⟨after, more, hsaved, hafter, hcatalog⟩ :=
        habreast.save_new hid hkey hroom hread hnamed (hkeyed.trans hkey) hsize hgroup
      have hsave := Catalog.save_of_hasRoom hkey (hplain ▸ hroom)
      have halike : after.catalog.plain = (memory.catalog.insert key p).plain := by
        rw [hcatalog, Catalog.plain_insert, Catalog.plain_insert, h.alike,
          (Parameters.same_iff q p).mp hsame]
      exact .of_yields hcontent (hfile hsaved) (hmemory hsave) (.same _) hafter halike

/-- What is held in memory is held by the file store. -/
theorem Mirrors.held (h : Mirrors file place disk memory) {p : Parameters}
    (hheld : ∃ q, memory.catalog.get? p.id = some q ∧ q.same p = true) :
    ∃ q, file.catalog.get? p.id = some q ∧ q.plain = p.plain := by
  obtain ⟨held, hget, hsame⟩ := hheld
  have hplain : (file.catalog.get? p.id).map Parameters.plain = some held.plain := by
    rw [← Catalog.get?_plain, h.alike, Catalog.get?_plain, hget]
    rfl
  obtain ⟨q, hq, heq⟩ := Option.map_eq_some_iff.mp hplain
  exact ⟨q, hq, heq.trans ((Parameters.same_iff held p).mp hsame)⟩

/-- A set whose members are held as they are is restored as the same set. -/
theorem plain_restored {lookup : Bytes → Option Parameters} {members : List Parameters}
    (h : ∀ p ∈ members, ∃ q, lookup p.id = some q ∧ q.plain = p.plain) :
    ((members.map (·.id)).filterMap lookup).map Parameters.plain =
      members.map Parameters.plain := by
  induction members with
  | nil => rfl
  | cons p rest ih =>
    obtain ⟨q, hq, hplain⟩ := h p List.mem_cons_self
    rw [List.map_cons, List.filterMap_cons_some hq, List.map_cons, List.map_cons, hplain,
      ih fun other hother => h other (List.mem_cons_of_mem _ hother)]

/-- Catalogs of one plain form save the same set alike. -/
theorem saveSet_alike {catalog other : Catalog} {set twin : ParameterSet}
    (halike : catalog.plain = other.plain) (hsame : set.plain = twin.plain) :
    (catalog.saveSet set).1 = (other.saveSet twin).1 ∧
      (catalog.saveSet set).2.plain = (other.saveSet twin).2.plain := by
  have hplain := Catalog.saveSet_plain catalog set
  rw [halike, hsame, Catalog.saveSet_plain, Prod.mk.injEq] at hplain
  exact ⟨hplain.1.symm, hplain.2.symm⟩

/-- Saving a set is answered alike. -/
theorem Mirrors.saveSet (h : Mirrors file place disk memory) {set : ParameterSet} {group : Bytes}
    (hallowed : (Command.saveSet set group).Allowed memory.catalog) (elsewhere : Disk) :
    Concur place elsewhere ((Store.file file place).perform disk (.saveSet set group))
      ((Store.memory memory).perform elsewhere (.saveSet set group)) := by
  obtain ⟨content, hcontent, habreast⟩ := h.abreast
  obtain ⟨hmembers, hsize, hgroup⟩ := hallowed
  have hmemory : ((Store.memory memory).perform elsewhere (.saveSet set group)).Yields
      (.ok (.savedSet (memory.catalog.saveSet set).1))
      (.memory { memory with catalog := (memory.catalog.saveSet set).2 }, elsewhere) := ⟨rfl, rfl⟩
  have hfile {fresh : Bool} {after : FileStore} {more : Bytes}
      (hsave : (file.saveSet set group content).Yields (.ok fresh) (after, more)) :
      ((Store.file file place).perform disk (.saveSet set group)).Yields (.ok (.savedSet fresh))
        (.file after place, disk.replaceContent place more) :=
    (change_file hcontent hsave).map Reply.savedSet
  cases hset : file.catalog.set? set.hash with
  | some held =>
    have hsave : file.catalog.saveSet set = (false, file.catalog) := by
      rw [Catalog.saveSet, Table.contains, ← Catalog.set?, hset]
      rfl
    obtain ⟨hanswer, halike⟩ := saveSet_alike h.alike (Eq.refl set.plain)
    rw [hsave] at hanswer halike
    rw [← hanswer] at hmemory
    have hknown := habreast.settled.saveSet_known (by rw [hset]; rfl) group
    exact .of_yields hcontent (hfile hknown) hmemory (.same _) habreast halike
  | none =>
    have hheld : ∀ p ∈ set.members, ∃ q, file.catalog.get? p.id = some q ∧ q.plain = p.plain :=
      fun p hp => h.held (hmembers p hp)
    have hids : ∀ id ∈ set.ids, (file.catalog.get? id).isSome = true := by
      intro id hid
      obtain ⟨p, hp, rfl⟩ := List.mem_map.mp hid
      obtain ⟨q, hq, -⟩ := hheld p hp
      rw [hq]
      rfl
    obtain ⟨after, more, hsaved, hafter, hcatalog⟩ :=
      habreast.saveSet_new hset hids hsize hgroup
    have hrestored : (ParameterSet.mk set.hash (set.ids.filterMap file.catalog.get?) none).plain =
        set.plain := by
      rw [ParameterSet.plain, ParameterSet.ids, plain_restored hheld]
      rfl
    obtain ⟨hanswer, halike⟩ := saveSet_alike h.alike hrestored
    rw [← hcatalog] at halike
    have hfresh : (memory.catalog.saveSet set).1 = true := by
      rw [← hanswer, Catalog.saveSet, Table.contains, ← Catalog.set?, hset]
      rfl
    rw [hfresh] at hmemory
    exact .of_yields hcontent (hfile hsaved) hmemory (.same _) hafter halike

/-- What changes the catalogs only, and catalogs of one plain form alike, is answered alike. -/
theorem Mirrors.operate (h : Mirrors file place disk memory) (reply : Bool → Reply)
    (operation : Catalog → Except StoreError Bool × Catalog)
    (hplain : ∀ catalog,
      operation catalog.plain = ((operation catalog).1, (operation catalog).2.plain))
    (hleft : ∀ content, disk.content? place = some content →
      left.Yields ((operation file.catalog).1.map reply)
        (.file { file with catalog := (operation file.catalog).2 } place,
          disk.replaceContent place content))
    (hright : right.Yields ((operation memory.catalog).1.map reply)
      (.memory { memory with catalog := (operation memory.catalog).2 }, elsewhere)) :
    Concur place elsewhere left right := by
  obtain ⟨content, hcontent, habreast⟩ := h.abreast
  have hboth := hplain file.catalog
  rw [h.alike, hplain, Prod.mk.injEq] at hboth
  refine .of_yields hcontent (hleft content hcontent) hright ?_ (habreast.withCatalog _)
    hboth.2.symm
  rw [hboth.1]
  exact .same _

/-- Deleting is answered alike. -/
theorem Mirrors.delete (h : Mirrors file place disk memory) (p : Parameters) (elsewhere : Disk) :
    Concur place elsewhere ((Store.file file place).perform disk (.delete p))
      ((Store.memory memory).perform elsewhere (.delete p)) := by
  refine h.operate .deleted (·.delete p) (Catalog.delete_plain · p)
    (fun content hcontent => ?_) ?_
  · have hdelete : ((file.delete p).mapState (·, content)).Yields (file.catalog.delete p).1
        ({ file with catalog := (file.catalog.delete p).2 }, content) := ⟨rfl, rfl⟩
    exact (change_file hcontent hdelete).map Reply.deleted
  · exact ⟨rfl, rfl⟩

theorem Mirrors.deleteSet (h : Mirrors file place disk memory) (hash : Bytes) (elsewhere : Disk) :
    Concur place elsewhere ((Store.file file place).perform disk (.deleteSet hash))
      ((Store.memory memory).perform elsewhere (.deleteSet hash)) := by
  refine h.operate .deletedSet
    (fun catalog => (.ok (catalog.deleteSet hash).1, (catalog.deleteSet hash).2))
    (fun catalog => ?_) (fun content hcontent => ?_) ?_
  · rw [Catalog.deleteSet_plain]
  · have hdelete : ((file.deleteSet hash).mapState (·, content)).Yields
        (.ok (file.catalog.deleteSet hash).1)
        ({ file with catalog := (file.catalog.deleteSet hash).2 }, content) := ⟨rfl, rfl⟩
    exact (change_file hcontent hdelete).map Reply.deletedSet
  · exact ⟨rfl, rfl⟩

theorem ask_file (hcontent : disk.content? place = some content) (query : Query) :
    (Store.file file place).ask disk query =
      (file.ask query content).mapState fun store => .file store place := by
  cases query <;> simp only [ask, get, find, getSet, allParameters, allSets, look, hcontent] <;> rfl

theorem ask_memory (disk : Disk) (memory : MemoryStore) (query : Query) :
    (Store.memory memory).ask disk query =
      .of (.memory memory) ((memory.catalog.answer query).map (·.stamp memory.id)) := by
  cases query with
  | byKey action group =>
    simp only [ask, find, look, MemoryStore.find, Catalog.findFor, Catalog.answer]
    cases memory.catalog.find action group <;> rfl
  | _ => rfl

/-- Catalogs of one plain form answer alike. -/
theorem agree_of_plain {catalog other : Catalog} (h : catalog.plain = other.plain) (query : Query)
    (id twin : StoreId) :
    Agree (((catalog.answer query).map (·.stamp id)).map .answered)
      (((other.answer query).map (·.stamp twin)).map .answered) := by
  have hplain := Catalog.answer_plain catalog query
  rw [h, Catalog.answer_plain] at hplain
  cases hleft : catalog.answer query with
  | error e =>
    cases hright : other.answer query with
    | error f =>
      rw [hleft, hright] at hplain
      obtain rfl : f = e := Except.error.inj hplain
      exact .same _
    | ok found =>
      rw [hleft, hright] at hplain
      contradiction
  | ok answer =>
    cases hright : other.answer query with
    | error f =>
      rw [hleft, hright] at hplain
      contradiction
    | ok found =>
      rw [hleft, hright] at hplain
      have hsame : found.plain = answer.plain := Except.ok.inj hplain
      apply Agree.answered
      apply sameAnswer_of_plain
      rw [Answer.plain_stamp, Answer.plain_stamp, hsame]

/-- Questions are answered alike. -/
theorem Mirrors.ask (h : Mirrors file place disk memory) (query : Query) (elsewhere : Disk) :
    Concur place elsewhere ((Store.file file place).perform disk (.ask query))
      ((Store.memory memory).perform elsewhere (.ask query)) := by
  obtain ⟨content, hcontent, habreast⟩ := h.abreast
  have hfile : ((Store.file file place).perform disk (.ask query)).Yields
      (((file.catalog.answer query).map (·.stamp file.id)).map .answered)
      (.file file place, disk) := by
    rw [perform, ask_file hcontent]
    exact (((habreast.settled.ask_eq query).mapState _).mapState _).map _
  have hmemory : ((Store.memory memory).perform elsewhere (.ask query)).Yields
      (((memory.catalog.answer query).map (·.stamp memory.id)).map .answered)
      (.memory memory, elsewhere) := by
    rw [perform, ask_memory]
    exact ⟨rfl, rfl⟩
  refine ⟨file, disk, memory, hfile.state, hmemory.state, ?_, h⟩
  rw [hfile.result, hmemory.result]
  exact agree_of_plain h.alike query file.id memory.id

/-- Whatever they are told or asked, the stores agree and go on mirroring each other. -/
theorem Mirrors.perform (h : Mirrors file place disk memory) {command : Command}
    (hallowed : command.Allowed memory.catalog) (elsewhere : Disk) :
    Concur place elsewhere ((Store.file file place).perform disk command)
      ((Store.memory memory).perform elsewhere command) := by
  cases command with
  | save p group => exact h.save hallowed elsewhere
  | saveSet set group => exact h.saveSet hallowed elsewhere
  | delete p => exact h.delete p elsewhere
  | deleteSet hash => exact h.deleteSet hash elsewhere
  | ask query => exact h.ask query elsewhere

/-- As long as what is saved may be saved, the stores agree. -/
theorem Mirrors.replies (h : Mirrors file place disk memory) {commands : List Command}
    {elsewhere : Disk} (hadmissible : Admissible commands (.memory memory) elsewhere) :
    List.Forall₂ Agree (replies commands (.file file place) disk)
      (replies commands (.memory memory) elsewhere) := by
  induction commands generalizing file disk memory with
  | nil => exact .nil
  | cons command rest ih =>
    obtain ⟨hallowed, hrest⟩ := hadmissible
    obtain ⟨nextFile, nextDisk, nextMemory, hleft, hright, hagree, hmirrors⟩ :=
      h.perform hallowed elsewhere
    rw [hright] at hrest
    rw [Store.replies, Store.replies, hleft, hright]
    exact .cons hagree (ih hmirrors hrest)

end Perform

/-! ### From the beginning -/

theorem ok_of_andThen {σ α β : Type} {outcome : Outcome σ α} {next : α → σ → Outcome σ β} {b : β}
    (h : (outcome.andThen next).result = .ok b) :
    ∃ a, outcome.result = .ok a ∧ (next a outcome.state).result = .ok b ∧
      (outcome.andThen next).state = (next a outcome.state).state := by
  cases hresult : outcome.result with
  | error e =>
    rw [Outcome.andThen_of_error hresult] at h
    contradiction
  | ok a =>
    rw [Outcome.andThen_of_ok hresult] at h ⊢
    exact ⟨a, rfl, h, rfl⟩

/-- A log that could be opened is at its beginning, and its frames have an allowed size. -/
theorem openOn_eq_ok {disk : Disk} {path : String} {frameSize : Nat} {writable : Bool} {log : Log}
    {place : Place} (h : (Log.openOn disk path frameSize writable).result = .ok (log, place)) :
    log = .opened path frameSize writable ∧
      ∃ capacity, Frame.capacity frameSize = .ok capacity := by
  rw [Log.openOn] at h
  cases hcapacity : Frame.capacity frameSize with
  | error e =>
    rw [hcapacity] at h
    contradiction
  | ok capacity =>
    rw [hcapacity] at h
    obtain ⟨found, -, hopened, -⟩ := ok_of_andThen h
    obtain ⟨rfl, -⟩ := Prod.mk.inj (Except.ok.inj hopened)
    exact ⟨rfl, capacity, rfl⟩

/-- A file store can be opened on an empty log, and holds nothing then. -/
theorem openOn_blank {disk made : Disk} {path : String} {frameSize : Nat} {log : Log}
    {place : Place}
    (hlog : (Log.openOn disk path frameSize true).Yields (.ok (log, place)) made)
    (hempty : made.content? place = some []) (id : StoreId) (config : Json.Members) :
    (FileStore.openOn disk id path frameSize config true).Yields
      (.ok (⟨id, .new config, log⟩, place)) made := by
  obtain ⟨rfl, hframed⟩ := openOn_eq_ok hlog.result
  have hblank : (FileStore.mk id (.new config) (.opened path frameSize true)).Abreast [] :=
    ⟨rfl, rfl, hframed⟩
  have hload : (FileStore.load id config (.opened path frameSize true) []).Yields (.ok ())
      ⟨id, .new config, .opened path frameSize true⟩ :=
    Outcome.Yields.andThen hblank.settled ⟨rfl, rfl⟩
  have hcontent : made.contentAt place path = .ok [] := by
    rw [Disk.contentAt, hempty]
  refine hlog.andThen ?_
  dsimp only
  rw [hcontent]
  dsimp only
  rw [hload.result, hload.state]
  exact ⟨rfl, rfl⟩

/-- A file store that was opened on an empty file is abreast of it and holds nothing. -/
theorem openOn_new {disk made : Disk} {id : StoreId} {path : String} {frameSize : Nat}
    {config : Json.Members} {file : FileStore} {place : Place}
    (hopen : (FileStore.openOn disk id path frameSize config true).Yields (.ok (file, place)) made)
    (hnew : made.content? place = some []) : file.Abreast [] ∧ file.catalog = .new config := by
  obtain ⟨⟨log, found⟩, hlog, hloaded, hstate⟩ := ok_of_andThen hopen.result
  obtain ⟨rfl, hframed⟩ := openOn_eq_ok hlog
  have hmade := hstate.symm.trans hopen.state
  dsimp only at hloaded hmade
  cases hcontent : (Log.openOn disk path frameSize true).state.contentAt found path with
  | error e =>
    rw [hcontent] at hloaded
    contradiction
  | ok content =>
    rw [hcontent] at hloaded hmade
    obtain ⟨-, -, hfile⟩ := Json.map_eq_ok hloaded
    obtain ⟨-, rfl⟩ := Prod.mk.inj hfile
    have hblank := openOn_blank ⟨hlog, hmade⟩ hnew id config
    have hsame := Except.ok.inj (hblank.result.symm.trans hopen.result)
    rw [← (Prod.mk.inj hsame).1]
    exact ⟨⟨rfl, rfl, hframed⟩, rfl⟩

/-- A file store on a new file that nobody else writes refines a store in memory. -/
theorem file_refines_memory {disk made elsewhere : Disk} {id twin : StoreId} {path : String}
    {frameSize : Nat} {config other : Json.Members} {file : FileStore} {place : Place}
    (hopen : (FileStore.openOn disk id path frameSize config true).Yields (.ok (file, place)) made)
    (hnew : made.content? place = some []) {commands : List Command}
    (hadmissible : Admissible commands (.memory (.new twin other)) elsewhere) :
    List.Forall₂ Agree (replies commands (.file file place) made)
      (replies commands (.memory (.new twin other)) elsewhere) := by
  obtain ⟨habreast, hcatalog⟩ := openOn_new hopen hnew
  have hmirrors : Mirrors file place made (.new twin other) := by
    refine ⟨⟨[], hnew, habreast⟩, ?_⟩
    rw [hcatalog]
    rfl
  exact hmirrors.replies hadmissible

/-- Parameters are saved, refused as others have their key, put into a set, deleted and saved
again. -/
def errands : List Command :=
  [.save (.sample 1) [0xa1], .save (.sample 2) [0xa2], .saveSet ⟨[7], [.sample 1], none⟩ [0xa3],
    .delete (.sample 1), .save (.sample 1) [0xa4], .ask (.byId [1]), .ask .allSets]

theorem file_refines_memory_errands :
    (FileStore.openOn .empty ⟨[1]⟩ "log" 64 [] true).Yields
        (.ok (⟨⟨[1]⟩, .new [], .opened "log" 64 true⟩, ["log"]))
        (Log.openOn .empty "log" 64 true).state ∧
      (Log.openOn .empty "log" 64 true).state.content? ["log"] = some [] ∧
      Admissible errands (.memory (.new ⟨[2]⟩ [])) .empty ∧
      List.Forall₂ Agree
        (replies errands (.file ⟨⟨[1]⟩, .new [], .opened "log" 64 true⟩ ["log"])
          (Log.openOn .empty "log" 64 true).state)
        (replies errands (.memory (.new ⟨[2]⟩ [])) .empty) := by
  have hnew : (Log.openOn .empty "log" 64 true).state.content? ["log"] = some [] := rfl
  have hlog : (Log.openOn .empty "log" 64 true).Yields (.ok (.opened "log" 64 true, ["log"]))
      (Log.openOn .empty "log" 64 true).state := ⟨rfl, rfl⟩
  have hopen := openOn_blank hlog hnew ⟨[1]⟩ []
  have hfirst (group : Bytes) (hgroup : group.length ≤ greatestField) (held : Catalog) :
      (Command.save (.sample 1) group).Allowed held :=
    ⟨by decide, ⟨_, Parameters.readable_sample_one, by decide⟩, by decide +kernel, hgroup⟩
  have hsecond : ∀ held, (Command.save (.sample 2) [0xa2]).Allowed held := fun _ =>
    ⟨by decide, ⟨_, Parameters.readable_sample_two, by decide⟩, by decide +kernel, by decide⟩
  have hadmissible : Admissible errands (.memory (.new ⟨[2]⟩ [])) .empty := by
    refine ⟨hfirst _ (by decide) _, hsecond _, ⟨fun p hp => ?_, by decide +kernel, by decide⟩,
      trivial, hfirst _ (by decide) _, trivial, trivial, trivial⟩
    obtain rfl := List.mem_singleton.mp hp
    exact (Option.any_eq_true _ _).mp (by decide +kernel)
  exact ⟨hopen, hnew, hadmissible, file_refines_memory hopen hnew hadmissible⟩

end Store
end ParameterLog
