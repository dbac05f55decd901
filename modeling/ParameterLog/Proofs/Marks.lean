/-
Module: ParameterLog.Proofs.Marks
Purpose: which of the objects that a store hands out bear its mark.
Main exports: Answer.marks, Answer.members, Answer.PointsBack, Catalog.Bare, MemoryStore.ask,
  FileStore.ask_eq_ok, Store.points_back_iff, Store.member_without_mark
-/
import ParameterLog.Proofs.Listings

/-!
Whatever a store is asked, it marks the parameters and the sets of its answer with its identity, be
they marked already or not. The members of a set stay as they are held. In memory they bear the
marks that they were saved with, so all that a memory store hands out points back at it exactly if
it takes only sets of members that it has handed out itself. A file store puts its sets together
from parameters that it has read from the log, and these bear no mark (`Bare`), so the members of
its sets point nowhere.
-/

namespace ParameterLog

namespace Answer

/-- The marks of the objects of an answer. -/
def marks : Answer → List (Option StoreId)
  | .parameters found => found.toList.map (·.store)
  | .set found => found.toList.map (·.store)
  | .allParameters all => all.map (·.store)
  | .allSets all => all.map (·.store)

/-- The members of the sets of an answer. -/
def members : Answer → List Parameters
  | .parameters _ => []
  | .set found => found.toList.flatMap (·.members)
  | .allParameters _ => []
  | .allSets all => all.flatMap (·.members)

/-- The objects of an answer and the members of its sets all bear the mark of a store. -/
structure PointsBack (store : StoreId) (answer : Answer) : Prop where
  objects : ∀ mark ∈ answer.marks, mark = some store
  members : ∀ p ∈ answer.members, p.store = some store

/-- An answer as given by a store has its mark on all objects. -/
theorem marks_stamp (answer : Answer) (store : StoreId) :
    ∀ mark ∈ (answer.stamp store).marks, mark = some store := by
  have hparameters (all : List Parameters) :
      ∀ mark ∈ (all.map (·.stamp store)).map (·.store), mark = some store := by
    simp [Parameters.stamp]
  have hsets (all : List ParameterSet) :
      ∀ mark ∈ (all.map (·.stamp store)).map (·.store), mark = some store := by
    simp [ParameterSet.stamp]
  cases answer with
  | parameters found =>
    have hfound := hparameters found.toList
    rwa [← Option.toList_map] at hfound
  | set found =>
    have hfound := hsets found.toList
    rwa [← Option.toList_map] at hfound
  | allParameters all => exact hparameters all
  | allSets all => exact hsets all

/-- The members of sets are given as they are. -/
@[simp] theorem members_stamp (answer : Answer) (store : StoreId) :
    (answer.stamp store).members = answer.members := by
  have hsets (all : List ParameterSet) :
      (all.map (·.stamp store)).flatMap (·.members) = all.flatMap (·.members) := by
    rw [List.flatMap_map]
    rfl
  cases answer with
  | parameters found => rfl
  | set found =>
    have hfound := hsets found.toList
    rwa [← Option.toList_map] at hfound
  | allParameters all => rfl
  | allSets all => exact hsets all

/-- An answer of a store points back at it exactly if the members of its sets do. -/
theorem pointsBack_stamp_iff (answer : Answer) (store : StoreId) :
    (answer.stamp store).PointsBack store ↔ ∀ p ∈ answer.members, p.store = some store := by
  constructor
  · intro h p hp
    rw [← members_stamp answer store] at hp
    exact h.members p hp
  · intro h
    refine ⟨marks_stamp answer store, fun p hp => ?_⟩
    rw [members_stamp] at hp
    exact h p hp

end Answer

/-- Each member that is restored was found under some identifier. -/
theorem ParameterSet.lookup_of_restoreMembers {lookup : Bytes → Option Parameters}
    {texts : List String} {members : List Parameters}
    (h : restoreMembers lookup texts = .ok members) {p : Parameters} (hp : p ∈ members) :
    ∃ id, lookup id = some p := by
  have hfound := restoreMembers_eq_ok.mp h
  clear h
  induction hfound with
  | nil => contradiction
  | cons hfirst _ ih =>
    obtain ⟨id, -, hlookup⟩ := hfirst
    rcases List.mem_cons.mp hp with rfl | hrest
    · exact ⟨id, hlookup⟩
    · exact ih hrest

namespace Catalog

variable {catalog : Catalog}

/-- The members of an answer are members of sets that are held. -/
theorem Filed.held_of_answer (h : Filed catalog) {query : Query} {answer : Answer}
    (hanswer : catalog.answer query = .ok answer) {p : Parameters} (hp : p ∈ answer.members) :
    ∃ hash set, catalog.set? hash = some set ∧ p ∈ set.members := by
  cases query with
  | byId id =>
    obtain rfl := Except.ok.inj hanswer
    simp [Answer.members] at hp
  | byKey action group =>
    obtain ⟨found, -, rfl⟩ := Json.map_eq_ok hanswer
    simp [Answer.members] at hp
  | byHash hash =>
    obtain rfl := Except.ok.inj hanswer
    simp only [Answer.members, List.mem_flatMap, Option.mem_toList] at hp
    obtain ⟨set, hset, hmember⟩ := hp
    exact ⟨hash, set, hset, hmember⟩
  | allParameters =>
    obtain rfl := Except.ok.inj hanswer
    simp [Answer.members] at hp
  | allSets =>
    obtain rfl := Except.ok.inj hanswer
    simp only [Answer.members, List.mem_flatMap] at hp
    obtain ⟨set, hset, hmember⟩ := hp
    obtain ⟨hash, hheld⟩ := h.tidy.mem_allSets_iff.mp hset
    exact ⟨hash, set, hheld, hmember⟩

/-- Neither the parameters that are held nor the members of the sets bear a mark. -/
structure Bare (catalog : Catalog) : Prop where
  parameters : ∀ {id p}, catalog.get? id = some p → p.store = none
  members : ∀ {hash set}, catalog.set? hash = some set → ∀ p ∈ set.members, p.store = none

theorem bare_new (config : Json.Members) : Bare (new config) := by
  constructor
  · intro id p h
    contradiction
  · intro hash set h
    contradiction

theorem Bare.hold (h : Bare catalog) (entry : Entry) : Bare (catalog.hold entry.content) := by
  refine ⟨fun {id p} hp => ?_, fun {hash set} hset => ?_⟩
  · rcases get?_hold hp with hheld | ⟨-, key, hcontent, -⟩
    · exact h.parameters hheld
    · exact Entry.store_of_content hcontent
  · rcases set?_hold hset with hheld | ⟨-, -, record, -, hrestore⟩
    · exact h.members hheld
    · -- The members are parameters that were held when the set was put together.
      obtain ⟨members, hmembers, rfl⟩ := restore_eq_ok.mp hrestore
      intro p hp
      obtain ⟨id, hlookup⟩ := ParameterSet.lookup_of_restoreMembers hmembers hp
      exact h.parameters hlookup

theorem Bare.delete (h : Bare catalog) (p : Parameters) : Bare (catalog.delete p).2 := by
  refine ⟨fun {id q} hq => ?_, fun {hash set} hset => ?_⟩
  · cases hkey : p.key with
    | error e =>
      rw [delete_of_keyless hkey] at hq
      exact h.parameters hq
    | ok key =>
      rw [get?_delete hkey] at hq
      split at hq
      · contradiction
      · exact h.parameters hq
  · rw [set?, sets_delete] at hset
    exact h.members hset

theorem Bare.deleteSet (h : Bare catalog) (hash : Bytes) : Bare (catalog.deleteSet hash).2 := by
  refine ⟨h.parameters, fun {other set} hset => ?_⟩
  simp only [Catalog.deleteSet, set?, Table.find?_erase] at hset
  split at hset
  · contradiction
  · exact h.members hset

/-- A set that is taken is held from then on. -/
theorem set?_of_saveSet {set : ParameterSet} (h : (catalog.saveSet set).1 = true) :
    (catalog.saveSet set).2.set? set.hash = some set := by
  rw [saveSet] at h ⊢
  split at h
  · contradiction
  · next hfree => rw [if_neg hfree, set?, Table.find?_insert, if_pos rfl]

/-- The members of all sets bear the mark of a store. -/
def MembersBear (store : StoreId) (catalog : Catalog) : Prop :=
  ∀ hash set, catalog.set? hash = some set → ∀ p ∈ set.members, p.store = some store

end Catalog

/-- A file store holds no mark. -/
theorem BusyStore.bare_run (opening : Opening) (base : Bytes) (moves : List Move) :
    Catalog.Bare ((opened opening base).run moves).store.catalog :=
  holds_run (P := Catalog.Bare) Catalog.bare_new (fun entry h => h.hold entry)
    (fun p h => h.delete p) (fun hash h => h.deleteSet hash) opening base moves

namespace MemoryStore

/-- Asks a store. -/
def ask (store : MemoryStore) : Query → Except StoreError Answer
  | .byId id => .ok (.parameters (store.get? id))
  | .byKey action group => (store.find action group).map .parameters
  | .byHash hash => .ok (.set (store.set? hash))
  | .allParameters => .ok (.allParameters store.allParameters)
  | .allSets => .ok (.allSets store.allSets)

/-- A store gives the answers of its catalog with its mark on them. -/
theorem ask_eq (store : MemoryStore) (query : Query) :
    store.ask query = (store.catalog.answer query).map (·.stamp store.id) := by
  cases query with
  | byKey action group =>
    simp only [ask, find, Catalog.findFor, Catalog.answer]
    cases store.catalog.find action group <;> rfl
  | _ => rfl

end MemoryStore

namespace FileStore

variable {store : FileStore} {content : Bytes}

theorem id_reconcileUnless (known : Bool) (content : Bytes) (store : FileStore) :
    (store.reconcileUnless known content).state.id = store.id := by
  rcases state_reconcileUnless known content store with hstate | hstate
  · rw [hstate]
  · rw [hstate, (reconcile_cases store content).1]

/-- A lookup behind a first operation is answered from the state that this operation leaves. -/
theorem looked_up {α : Type} {first : Outcome FileStore Unit}
    {reply : FileStore → Except StoreError α} {wrap : α → Answer} {answer : Answer}
    (h : ((first.andThen fun _ store => .of store (reply store)).map wrap).result = .ok answer) :
    ((first.andThen fun _ store => .of store (reply store)).map wrap).state = first.state ∧
      (reply first.state).map wrap = .ok answer := by
  have hstate : (first.andThen fun _ store => .of store (reply store)).state = first.state :=
    Outcome.state_andThen first fun _ _ => rfl
  obtain ⟨found, hresult, hfound⟩ := Json.map_eq_ok h
  refine ⟨hstate, ?_⟩
  rw [(Outcome.replied_of_ok hresult).2, ← hfound]
  rfl

/-- A store gives the answers of the catalog that it is left with, with its mark on them. -/
theorem ask_eq_ok {query : Query} {answer : Answer}
    (h : (store.ask query content).result = .ok answer) :
    ∃ plain, (store.ask query content).state.catalog.answer query = .ok plain ∧
      answer = plain.stamp store.id := by
  have hmarked {after : FileStore} (hid : after.id = store.id)
      (hafter : (after.catalog.answer query).map (·.stamp after.id) = .ok answer) :
      ∃ plain, after.catalog.answer query = .ok plain ∧ answer = plain.stamp store.id := by
    obtain ⟨plain, hplain, hanswer⟩ := Json.map_eq_ok hafter
    exact ⟨plain, hplain, hid ▸ hanswer.symm⟩
  cases query with
  | byId id =>
    obtain ⟨hstate, hreply⟩ := looked_up h
    exact hstate ▸ hmarked (id_reconcileUnless ..) hreply
  | byKey action group =>
    rw [ask, find] at h ⊢
    cases hknown : store.catalog.find action group with
    | error e =>
      rw [hknown] at h
      contradiction
    | ok known =>
      rw [hknown] at h
      obtain ⟨hstate, hreply⟩ := looked_up h
      rw [hstate]
      refine hmarked (id_reconcileUnless ..) ?_
      rw [← hreply, Catalog.answer, Catalog.findFor]
      cases Catalog.find _ action group <;> rfl
  | byHash hash =>
    obtain ⟨hstate, hreply⟩ := looked_up h
    exact hstate ▸ hmarked (id_reconcileUnless ..) hreply
  | allParameters =>
    obtain ⟨hstate, hreply⟩ := looked_up h
    exact hstate ▸ hmarked (reconcile_cases store content).1 hreply
  | allSets =>
    obtain ⟨hstate, hreply⟩ := looked_up h
    exact hstate ▸ hmarked (reconcile_cases store content).1 hreply

end FileStore

/-! ### What points back -/

namespace MemoryStore

/-- All answers of a memory store point back at it exactly if the members of its sets do. -/
theorem pointsBack_iff {store : MemoryStore} (h : store.catalog.Filed) :
    (∀ query answer, store.ask query = .ok answer → answer.PointsBack store.id) ↔
      store.catalog.MembersBear store.id := by
  constructor
  · intro hall hash set hset
    have hanswer : store.ask (.byHash hash) = .ok (.set (some (set.stamp store.id))) := by
      rw [ask, set?, Catalog.setFor?, hset, Option.map_some]
    intro p hp
    apply (hall _ _ hanswer).members p
    rw [Answer.members, Option.toList_some, List.flatMap_singleton]
    exact hp
  · intro hbear query answer hanswer
    rw [ask_eq] at hanswer
    obtain ⟨plain, hplain, rfl⟩ := Json.map_eq_ok hanswer
    refine (plain.pointsBack_stamp_iff store.id).mpr fun p hp => ?_
    obtain ⟨hash, set, hset, hmember⟩ := h.held_of_answer hplain hp
    exact hbear hash set hset p hmember

/-- The same after saves and deletes. -/
theorem pointsBack_changed_iff (id : StoreId) (config : Json.Members)
    (changes : List Catalog.Change) :
    (∀ query answer, ((new id config).changed changes).ask query = .ok answer →
        answer.PointsBack id) ↔
      ((Catalog.new config).changed changes).MembersBear id := by
  rw [changed_eq]
  exact pointsBack_iff ((Catalog.filed_new config).changed changes)

/-- Whatever has been saved and deleted, the members of the sets bear a mark exactly if the members
of each set that was taken do. -/
theorem membersBear_along_iff (store : StoreId) (config : Json.Members)
    (changes : List Catalog.Change) :
    (∀ before, before <+: changes → ((Catalog.new config).changed before).MembersBear store) ↔
      ∀ before set, before ++ [.saveSet set] <+: changes →
        (((Catalog.new config).changed before).saveSet set).1 = true →
        ∀ p ∈ set.members, p.store = some store := by
  constructor
  · intro hall before set hinitial htaken
    have hbear := hall _ hinitial
    rw [Catalog.changed_concat] at hbear
    exact hbear set.hash set (Catalog.set?_of_saveSet htaken)
  · intro hclean
    refine Catalog.holds_along (P := Catalog.MembersBear store) ?_ fun before last hinitial h => ?_
    · intro hash set hset
      contradiction
    · intro hash set hset
      rcases Catalog.set?_change hset with hheld | ⟨rfl, htaken, -⟩
      · exact h hash set hheld
      · exact hclean before set hinitial htaken

end MemoryStore

/-- The members of the sets that a file store answers with bear no mark. -/
theorem BusyStore.members_bare {opening : Opening} {base : Bytes} {moves : List Move}
    {query : Query} {plain : Answer}
    (h : ((((opened opening base).run moves).step (.ask query)).store.catalog).answer query =
      .ok plain) :
    ∀ p ∈ plain.members, p.store = none := by
  -- Asking is one more move, so the state that it leaves has been reached as well.
  have hrun : ((opened opening base).run moves).step (.ask query) =
      (opened opening base).run (moves ++ [.ask query]) := by
    rw [run, run, List.foldl_append]
    rfl
  rw [hrun] at h
  intro p hp
  obtain ⟨hash, set, hset, hmember⟩ := (filed_run opening base _).held_of_answer h hp
  exact (bare_run opening base _).members hset p hmember

/-- What points back at the store that hands it out. The parameters and sets of every answer do. In
memory the members of the sets do as well, all along any saves and deletes, exactly if every set
that was taken had only members that bore the mark of the store already. The members of the sets of
a file store never bear any mark, whatever the store and the others on its log have done, so an
answer of it points back exactly if it has no set with members in it. -/
theorem Store.points_back_iff (id : StoreId) (config : Json.Members) (changes : List Catalog.Change)
    (opening : Opening) (base : Bytes) (moves : List BusyStore.Move) :
    let store := (MemoryStore.new id config).changed
    let busy := (BusyStore.opened opening base).run moves
    ((∀ before, before <+: changes → ∀ query answer, (store before).ask query = .ok answer →
        ∀ mark ∈ answer.marks, mark = some id) ∧
      ((∀ before, before <+: changes → ∀ query answer, (store before).ask query = .ok answer →
          answer.PointsBack id) ↔
        ∀ before set, before ++ [.saveSet set] <+: changes →
          ((store before).saveSet set).1 = true → ∀ p ∈ set.members, p.store = some id)) ∧
    ∀ query answer, (busy.store.ask query busy.content).result = .ok answer →
      (∀ mark ∈ answer.marks, mark = some opening.id) ∧
        (∀ p ∈ answer.members, p.store = none) ∧
        (answer.PointsBack opening.id ↔ answer.members = []) := by
  intro store busy
  refine ⟨⟨fun before _ query answer hanswer => ?_, ?_⟩, fun query answer hanswer => ?_⟩
  · rw [MemoryStore.ask_eq] at hanswer
    obtain ⟨plain, -, rfl⟩ := Json.map_eq_ok hanswer
    have hid : (store before).id = id :=
      congrArg MemoryStore.id ((MemoryStore.new id config).changed_eq before)
    exact hid ▸ plain.marks_stamp (store before).id
  · have hcatalog (before : List Catalog.Change) :
        (store before).catalog = (Catalog.new config).changed before :=
      congrArg MemoryStore.catalog ((MemoryStore.new id config).changed_eq before)
    simp only [store, MemoryStore.pointsBack_changed_iff]
    rw [MemoryStore.membersBear_along_iff]
    simp only [MemoryStore.saveSet, ← hcatalog]
    rfl
  · obtain ⟨plain, hplain, rfl⟩ := FileStore.ask_eq_ok hanswer
    have hnone := BusyStore.members_bare hplain
    rw [BusyStore.id_run opening base moves, Answer.pointsBack_stamp_iff, Answer.members_stamp]
    refine ⟨plain.marks_stamp _, hnone, fun hpoints => ?_, fun hempty => ?_⟩
    · -- A member would bear the mark of the store and none.
      refine List.eq_nil_iff_forall_not_mem.mpr fun p hp => ?_
      have hmarked := hpoints p hp
      rw [hnone p hp] at hmarked
      contradiction
    · simp [hempty]

/-- Parameters that no store has marked yet are saved in a memory store, and a set with them as its
only member. The set that the store hands out bears its mark, but the member bears none. -/
theorem Store.member_without_mark :
    ∃ set, ParameterSet.ofMembers [.sample 1] = .ok set ∧
      ∃ answer, ((MemoryStore.new ⟨[1]⟩ []).changed [.save (.sample 1), .saveSet set]).ask
          (.byHash set.hash) = .ok answer ∧
        answer.marks = [some ⟨[1]⟩] ∧ answer.members = [.sample 1] ∧
        (Parameters.sample 1).store = none ∧ ¬ answer.PointsBack ⟨[1]⟩ := by
  refine ⟨_, ParameterSet.ofMembers_eq_ok (by decide), ?_⟩
  generalize (ParameterSet.hashInput ([Parameters.sample 1].map (·.id))).blake3 = hash
  let set : ParameterSet := ⟨hash, [.sample 1], none⟩
  have hheld : ((Catalog.new []).changed [.save (.sample 1), .saveSet set]).set? hash =
      some set := by
    apply Catalog.set?_of_saveSet
    -- The save before it holds no set yet.
    have hfree : ((Catalog.new []).change (.save (.sample 1))).2.set? hash = none := by
      refine Option.eq_none_iff_forall_ne_some.mpr fun other hother => ?_
      rcases Catalog.set?_change hother with hheld | ⟨heq, -, -⟩ <;> contradiction
    rw [Catalog.set?] at hfree
    simp [Catalog.saveSet, Table.contains, set, hfree]
  refine ⟨.set (some (set.stamp ⟨[1]⟩)), ?_, rfl, rfl, rfl, fun hpoints => ?_⟩
  · rw [MemoryStore.ask, MemoryStore.set?, MemoryStore.changed_eq, MemoryStore.new,
      Catalog.setFor?, hheld, Option.map_some]
  · have hmarked := hpoints.members (.sample 1) (List.mem_singleton_self _)
    contradiction

end ParameterLog
