/-
Module: ParameterLog.Proofs.Reconciling
Purpose: what reconciling comes to, whatever a store holds and whatever its log holds.
Main exports: FileStore.reconcile_of_read, FileStore.reconcile_of_unreadable,
  Cursor.read_again, FileStore.settled_of_reconcile, FileStore.reconcile_cases,
  FileStore.unread, FileStore.seek, Catalog.TakesIn, FileStore.taken_in_wholly
-/
import ParameterLog.Proofs.SoleWriter
import ParameterLog.Proofs.SuccessivePasses
import ParameterLog.Proofs.FrameScanning

/-!
By the time entries are taken in, the cursor stands behind them, so an entry that failed would be
lost together with those behind it. None can fail: what a catalog looks at before it saves
parameters rules out everything for which saving is refused, whatever has been saved and deleted
before. So reconciling takes in all that a read gives out (`reconcile_of_read`), one entry after the
other (`TakesIn`), and it fails only if the read does, with the catalog as it was
(`reconcile_of_unreadable`). The two together are `taken_in_wholly`.

A read that has succeeded has nothing left to read, be it that the log ends inside a frame, so a
store that has reconciled is settled until something is appended (`settled_of_reconcile`). A lookup
of one object (`seek`) answers from the catalog if the object is held there. If it is not, the
lookup answers from what the catalog holds with the entries that were left to read (`unread`).
-/

namespace ParameterLog

open Outcome (Yields)

/-- A reply that is made up from the state that a first operation leaves is given if that operation
succeeds. -/
theorem Outcome.replied_of_ok {σ α : Type} {first : Outcome σ Unit}
    {reply : σ → Except StoreError α} {answer : α}
    (h : (first.andThen fun _ state => .of state (reply state)).result = .ok answer) :
    first.result = .ok () ∧ reply first.state = .ok answer := by
  cases hresult : first.result with
  | error e =>
    rw [andThen_of_error hresult] at h
    contradiction
  | ok done =>
    rw [andThen_of_ok hresult] at h
    exact ⟨rfl, h⟩

/-! ### Reading again -/

namespace Cursor

variable {cursor : Cursor} {content : Bytes} {path : String}

/-- A read that gives something out leaves the cursor where its scan stopped, with the frames that
wait, and the scan met the end of the log or a frame that is cut off. -/
theorem read_eq_ok {reading : Reading} (h : (cursor.read path content).result = .ok reading) :
    let scan := Frame.scan cursor.offset (content.drop cursor.offset)
    let assembly := Assembly.ofFrames (cursor.pending ++ scan.frames)
    reading = ⟨assembly.entries, scan.failure⟩ ∧
      (∀ e, scan.failure = some e → e.retryable = true) ∧
      (cursor.read path content).state =
        ⟨scan.stop, assembly.remaining, scan.failure.map fun _ => scan.stop⟩ := by
  simp only [read] at h ⊢
  cases hfailure : (Frame.scan cursor.offset (content.drop cursor.offset)).failure with
  | none =>
    simp only [hfailure] at h ⊢
    exact ⟨(Except.ok.inj h).symm, by simp, rfl⟩
  | some e =>
    simp only [hfailure] at h ⊢
    cases hretryable : e.retryable with
    | true =>
      rw [hretryable, if_pos rfl] at h
      refine ⟨(Except.ok.inj h).symm, fun other hother => ?_, rfl⟩
      rw [← Option.some.inj hother, hretryable]
    | false => simp [hretryable] at h

/-- There is nothing to read behind a read that has succeeded. -/
theorem read_again {reading : Reading} (h : (cursor.read path content).result = .ok reading) :
    ((cursor.read path content).state.read path content).Yields (.ok ⟨[], reading.truncated⟩)
      (cursor.read path content).state := by
  obtain ⟨rfl, hretryable, hstate⟩ := read_eq_ok h
  obtain ⟨rest, hrest, -, hstop, hends⟩ :=
    Frame.exists_scanned cursor.offset (content.drop cursor.offset)
  rw [hstate]
  generalize Frame.scan cursor.offset (content.drop cursor.offset) = scan at *
  have hbehind : content.drop scan.stop = rest := by
    rw [hstop, ← List.drop_drop, hrest, List.drop_left]
  simp only [read, hbehind, Frame.scan_of_ends hends]
  -- What waits is put together once more, and still waits.
  have hagain := Assembly.remaining_remaining (cursor.pending ++ scan.frames)
  have hnone := Assembly.entries_remaining (cursor.pending ++ scan.frames)
  cases hfailure : scan.failure with
  | none => exact ⟨by simp [take, hnone], by simp [take, hagain]⟩
  | some e =>
    simp only [hretryable e hfailure, if_true]
    exact ⟨by simp [take, Outcome.reporting, hnone], by simp [take, Outcome.reporting, hagain]⟩

end Cursor

namespace FileStore

variable {store : FileStore} {content : Bytes}

/-! ### One reconciliation -/

/-- All entries that a read gives out are taken in. -/
theorem reconcile_of_read {reading : Reading} (h : (store.log.read content).result = .ok reading) :
    (store.reconcile content).Yields (.ok ())
      { store with
        catalog := store.catalog.after reading.entries
        log := (store.log.read content).state } := by
  have hread : ((store.log.read content).mapState fun log => { store with log := log }).Yields
      (.ok reading) { store with log := (store.log.read content).state } := ⟨h, rfl⟩
  obtain ⟨hresult, hstate⟩ :=
    absorb_eq reading { store with log := (store.log.read content).state }
  exact hread.andThen ⟨hresult, hstate⟩

/-- A read that fails leaves the catalog alone. -/
theorem reconcile_of_unreadable {e : StoreError}
    (h : (store.log.read content).result = .error e) :
    (store.reconcile content).Yields (.error e)
      { store with log := (store.log.read content).state } := by
  have hread : ((store.log.read content).mapState fun log => { store with log := log }).Yields
      (.error e) { store with log := (store.log.read content).state } := ⟨h, rfl⟩
  exact hread.andThen_error _

/-- What reconciling does to the catalog and the identity of a store. -/
theorem reconcile_cases (store : FileStore) (content : Bytes) :
    (store.reconcile content).state.id = store.id ∧
      ∃ entries, (store.reconcile content).state.catalog = store.catalog.after entries := by
  cases hread : (store.log.read content).result with
  | ok reading =>
    rw [(reconcile_of_read hread).state]
    exact ⟨rfl, reading.entries, rfl⟩
  | error e =>
    rw [(reconcile_of_unreadable hread).state]
    exact ⟨rfl, [], rfl⟩

/-- A store that has reconciled has nothing to read until something is appended. -/
theorem settled_of_reconcile (h : (store.reconcile content).result = .ok ()) :
    (store.reconcile content).state.Settled content := by
  cases hread : (store.log.read content).result with
  | error e =>
    rw [(reconcile_of_unreadable hread).result] at h
    contradiction
  | ok reading =>
    have hcursor : (store.log.cursor.read store.log.path content).result = .ok reading := hread
    obtain ⟨hresult, hstate⟩ := Cursor.read_again hcursor
    have hagain : ((store.log.read content).state.read content).Yields
        (.ok ⟨[], reading.truncated⟩) (store.log.read content).state := by
      refine ⟨hresult, ?_⟩
      exact congrArg (fun cursor => { store.log with cursor := cursor }) hstate
    rw [(reconcile_of_read hread).state]
    generalize (store.log.read content).state = log at hagain
    let after : FileStore :=
      { store with catalog := store.catalog.after reading.entries, log := log }
    have hsettled : (after.reconcile content).Yields (.ok ()) _ := reconcile_of_read hagain.result
    rwa [hagain.state] at hsettled

/-! ### What there is to read -/

/-- The entries that reading the log would give out; none if the log cannot be read. -/
def unread (store : FileStore) (content : Bytes) : List Entry :=
  match (store.log.read content).result with
  | .ok reading => reading.entries
  | .error _ => []

/-- What a settled store has not read adds nothing to its catalog. -/
theorem Settled.after_unread (h : store.Settled content) :
    store.catalog.after (store.unread content) = store.catalog := by
  rw [unread]
  cases hread : (store.log.read content).result with
  | ok reading =>
    have hstate := (reconcile_of_read hread).state
    rw [h.state] at hstate
    exact (congrArg (·.catalog) hstate).symm
  | error e => rfl

/-! ### Looking something up -/

section Seek

variable {α : Type} (held : Catalog → Option α) (stamp : StoreId → α → α)

/-- Looks up something that the catalog may hold: reconciles if it does not, and gives what it holds
then. -/
def seek (content : Bytes) (store : FileStore) : Outcome FileStore (Option α) :=
  (store.reconcileUnless (held store.catalog).isSome content).andThen fun _ store =>
    .done store ((held store.catalog).map (stamp store.id))

theorem get_eq_seek (id content : Bytes) (store : FileStore) :
    store.get id content = store.seek (·.get? id) (fun mark p => p.stamp mark) content := rfl

theorem getSet_eq_seek (hash content : Bytes) (store : FileStore) :
    store.getSet hash content = store.seek (·.set? hash) (fun mark set => set.stamp mark) content :=
  rfl

variable {held stamp}

theorem result_seek_of_some {a : α} (h : held store.catalog = some a) :
    (store.seek held stamp content).result = .ok (some (stamp store.id a)) := by
  have hknown : store.reconcileUnless (held store.catalog).isSome content = .done store () := by
    rw [h]
    rfl
  rw [seek, hknown, Outcome.andThen_done, h]
  rfl

theorem seek_of_none (h : held store.catalog = none) :
    store.seek held stamp content = (store.reconcile content).andThen fun _ store =>
      .done store ((held store.catalog).map (stamp store.id)) := by
  rw [seek, h]
  rfl

/-- What is not held is looked for in the log. -/
theorem result_seek_of_none (h : held store.catalog = none) :
    (store.seek held stamp content).result = (store.log.read content).result.map fun reading =>
      (held (store.catalog.after reading.entries)).map (stamp store.id) := by
  rw [seek_of_none h]
  cases hread : (store.log.read content).result with
  | ok reading => exact ((reconcile_of_read hread).andThen ⟨rfl, rfl⟩).result
  | error e => exact ((reconcile_of_unreadable hread).andThen_error _).result

/-- A settled store answers from its catalog. -/
theorem Settled.result_seek (h : store.Settled content) :
    (store.seek held stamp content).result = .ok ((held store.catalog).map (stamp store.id)) :=
  ((h.reconcileUnless_eq _).andThen ⟨rfl, rfl⟩).result

/-- A lookup finds something exactly if it is held once all that can be read has been taken in. -/
theorem found_seek_iff (hkept : ∀ a entries, held store.catalog = some a →
      (held (store.catalog.after entries)).isSome = true) :
    (∃ a, (store.seek held stamp content).result = .ok (some a)) ↔
      (held (store.catalog.after (store.unread content))).isSome = true := by
  cases hheld : held store.catalog with
  | some a => simp [result_seek_of_some hheld, hkept a _ hheld]
  | none =>
    rw [result_seek_of_none hheld, unread]
    cases (store.log.read content).result with
    | ok reading =>
      simp only [Except.map, Except.ok.injEq, Option.map_eq_some_iff, Option.isSome_iff_exists]
      constructor
      · rintro ⟨-, b, hb, -⟩
        exact ⟨b, hb⟩
      · rintro ⟨b, hb⟩
        exact ⟨_, b, hb, rfl⟩
    | error e => simp [Except.map, hheld]

end Seek

end FileStore

/-! ### Entry by entry -/

namespace Catalog

/-- Entries are applied one after the other, and none of them fails. -/
inductive TakesIn : Catalog → List Entry → Catalog → Prop
  | nil (catalog : Catalog) : TakesIn catalog [] catalog
  | cons {catalog : Catalog} {entry : Entry} {rest : List Entry} {final : Catalog}
    (first : (catalog.apply entry).result = .ok ())
    (others : TakesIn (catalog.apply entry).state rest final) :
    TakesIn catalog (entry :: rest) final

/-- Any entries are taken in by any catalog. -/
theorem takesIn_after (catalog : Catalog) (entries : List Entry) :
    TakesIn catalog entries (catalog.after entries) := by
  induction entries generalizing catalog with
  | nil => exact .nil catalog
  | cons entry rest ih =>
    obtain ⟨events, happly⟩ := apply_eq catalog entry
    refine .cons (by rw [happly]) ?_
    rw [happly, after_cons]
    exact ih _

/-- A set record whose members are there when its turn comes leads to a set from then on. -/
theorem isSome_set?_of_restored {catalog : Catalog} {front back : List Entry} {entry : Entry}
    {record : SetRecord} {set : ParameterSet} (hcontent : entry.content = .set record)
    (hrestore : ParameterSet.restore record (catalog.after front).get? = .ok set) :
    ((catalog.after (front ++ entry :: back)).set? record.hash).isSome = true := by
  have hheld : (((catalog.after front).hold entry.content).set? record.hash).isSome = true := by
    rw [hcontent, hold]
    split
    · next hknown => exact hknown
    · rw [hrestore]
      simp [set?, Table.find?_insert, hash_of_restore hrestore]
  obtain ⟨held, hset⟩ := Option.isSome_iff_exists.mp hheld
  rw [after_append, after_cons, (extends_after _ back).set? hset]
  rfl

end Catalog

/-- Reconciling takes in every entry that a read gives out, one after the other and without any of
them failing, whatever the store holds: afterwards there is something under the identifier or the
key of all parameters among them, and under the hash of each set whose members were there when its
turn came. It fails only if the read does, and then the catalog is as it was. -/
theorem FileStore.taken_in_wholly (store : FileStore) (content : Bytes) :
    (∀ reading, (store.log.read content).result = .ok reading →
      (store.reconcile content).result = .ok () ∧
        store.catalog.TakesIn reading.entries (store.reconcile content).state.catalog ∧
        (∀ entry ∈ reading.entries, ∀ p key, entry.content = .parameters p key →
          ((store.reconcile content).state.catalog.get? p.id).isSome = true ∨
            ((store.reconcile content).state.catalog.ofKey? key).isSome = true) ∧
        ∀ front entry back record set, reading.entries = front ++ entry :: back →
          entry.content = .set record →
          ParameterSet.restore record (store.catalog.after front).get? = .ok set →
          ((store.reconcile content).state.catalog.set? record.hash).isSome = true) ∧
    ∀ e, (store.log.read content).result = .error e →
      (store.reconcile content).result = .error e ∧
        (store.reconcile content).state.catalog = store.catalog := by
  constructor
  · intro reading hread
    obtain ⟨hresult, hstate⟩ := reconcile_of_read hread
    rw [hresult, hstate]
    refine ⟨rfl, Catalog.takesIn_after _ _, fun entry hmem p key hcontent => ?_,
      fun front entry back record set hsplit hcontent hrestore => ?_⟩
    · have htaken : (store.catalog.after reading.entries).hasRoom p.id key = false :=
        Catalog.taken_of_mem hmem hcontent
      simpa [Catalog.hasRoom, imp_iff_not_or, ← Option.isSome_iff_ne_none] using htaken
    · dsimp only
      rw [hsplit]
      exact Catalog.isSome_set?_of_restored hcontent hrestore
  · intro e hread
    obtain ⟨hresult, hstate⟩ := reconcile_of_unreadable hread
    rw [hresult, hstate]
    exact ⟨rfl, rfl⟩

end ParameterLog
