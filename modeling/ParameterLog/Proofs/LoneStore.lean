/-
Module: ParameterLog.Proofs.LoneStore
Purpose: runs of a store on a log of frames that nobody else works on.
Main exports: Frame.MadeUp, Saving.HasPlace, Saving.IsHeld, LoneStore, LoneStore.obey,
  LoneStore.Lands, LoneStore.Level, LoneStore.Level.save_landed, LoneStore.Level.save_refused,
  LoneStore.Level.obey, LoneStore.opened_level, LoneStore.Finds
-/
import ParameterLog.Proofs.CurrentAnswers
import ParameterLog.Proofs.ReadingTimes
import ParameterLog.Proofs.Refinement

/-!
A store works alone on a log that holds any frames at first, those of groups that wait for more or
contradict themselves among them. It is told to save and to delete and is asked questions
(`LoneStore.obey`), and each record that it saves goes under a group that is made up (`MadeUp`).

All along the run the store has read all of the log (`Level`), so it is settled whenever it is told
something. A save either lands, and then its record stands at the end of the log and its catalog has
taken that record in and nothing else (`Level.save_landed`), or it leaves the log and the store as
they are (`Level.save_refused`). As long as nothing is deleted, the catalog is the one that the log
holds.
-/

namespace ParameterLog

open ParameterLog.Frame (bytesOf groupIds Continues)
open Assembly (found)
open Outcome (Yields)

/-! ### Made-up groups -/

/-- The groups under which a command appends. -/
def Store.Command.groups : Store.Command → List Bytes
  | .save _ group => [group]
  | .saveSet _ group => [group]
  | _ => []

/-- The command deletes something. -/
def Store.Command.Deletes : Store.Command → Prop
  | .delete _ => True
  | .deleteSet _ => True
  | _ => False

/-- Groups that are made up for a log of frames: they are not there yet, no two of them are alike,
and they fit their field. -/
structure Frame.MadeUp (frames : List Frame) (groups : List Bytes) : Prop where
  fresh : ∀ group ∈ groups, group ∉ groupIds frames
  distinct : groups.Nodup
  fit : ∀ group ∈ groups, group.length ≤ greatestField

namespace Frame.MadeUp

variable {frames rows : List Frame} {groups more : List Bytes}

theorem of_append (h : MadeUp frames (groups ++ more)) : MadeUp frames groups :=
  ⟨fun group hgroup => h.fresh group (List.mem_append_left _ hgroup),
    (List.nodup_append.mp h.distinct).1,
    fun group hgroup => h.fit group (List.mem_append_left _ hgroup)⟩

/-- Groups stay made up when frames of others are appended. -/
theorem behind (h : MadeUp frames (groups ++ more)) (hrows : groupIds rows ⊆ groups) :
    MadeUp (frames ++ rows) more := by
  obtain ⟨-, hmore, hacross⟩ := List.nodup_append.mp h.distinct
  refine ⟨fun group hgroup hmem => ?_, hmore,
    fun group hgroup => h.fit group (List.mem_append_right _ hgroup)⟩
  rcases Frame.mem_groupIds_append.mp hmem with hold | hnew
  · exact h.fresh group (List.mem_append_right _ hgroup) hold
  · exact hacross group (hrows hnew) group hgroup rfl

/-- Frames under made-up groups hold their entries behind those that were there. -/
theorem found_append (h : MadeUp frames groups) (hrows : groupIds rows ⊆ groups) :
    found (frames ++ rows) = found frames ++ found rows :=
  Assembly.found_append_of_disjoint fun id hid => h.fresh id (hrows hid)

end Frame.MadeUp

/-- Frames of groups that have not begun are given out by themselves. -/
theorem Cursor.given_of_fresh {xs ys : List Frame} (h : ∀ id ∈ groupIds ys, id ∉ groupIds xs) :
    Continues xs ys ∧ given xs ys = (found ys).map (·.2) := by
  have hcontinues : Continues xs ys := fun frame hframe hbegun =>
    absurd hbegun (h _ (Frame.mem_groupIds.mpr ⟨frame, hframe, rfl⟩))
  have hsettled : (found xs).filter (fun item => Frame.Open xs item.1) = [] := by
    rw [List.filter_eq_nil_iff]
    intro item hitem
    simpa using Assembly.not_open_of_mem_found hitem
  have hopen : (found ys).filter (fun item => Frame.Open xs item.1) = found ys := by
    rw [List.filter_eq_self]
    intro item hitem
    have hnew := h item.1 (Assembly.mem_found hitem).1
    simp [Frame.Open, hnew]
  refine ⟨hcontinues, ?_⟩
  rw [given, Assembly.found_append_right hcontinues, Assembly.found_append_of_disjoint h,
    List.filter_append, hsettled, hopen, List.nil_append]

/-! ### Places -/

namespace Saving

/-- The three steps at once: says whether what is saved is new. -/
def save (group content : Bytes) (store : FileStore) : Saving → Outcome (FileStore × Bytes) Bool
  | .parameters p => store.save p group content
  | .set s => store.saveSet s group content

/-- A catalog has a place for what is to be saved. -/
def HasPlace (catalog : Catalog) : Saving → Prop
  | .parameters p => p.id ≠ [] ∧ ∃ key, p.key = .ok key ∧ catalog.hasRoom p.id key = true
  | .set s => catalog.set? s.hash = none ∧ ∀ id ∈ s.ids, (catalog.get? id).isSome = true

/-- A catalog holds an object under the name of what was saved. -/
def IsHeld (catalog : Catalog) : Saving → Prop
  | .parameters p => (catalog.get? p.id).isSome = true
  | .set s => (catalog.set? s.hash).isSome = true

variable {store : FileStore} {content : Bytes}

theorem save_eq (saving : Saving) (group content : Bytes) (store : FileStore) :
    saving.save group content store =
      ((saving.check content store).mapState (·, content)).andThen fun hasRoom (store, content) =>
        if hasRoom then
          ((store.append saving.record.kind saving.record.id saving.record.data group
            content).mapState (store, ·)).andThen
            fun _ (store, content) => (saving.confirm content store).mapState (·, content)
        else .done (store, content) false := by
  cases saving <;> rfl

/-- Checking finds out whether there is a place. -/
theorem check_iff (h : store.Settled content) (saving : Saving) :
    (saving.check content store).state = store ∧
      ((saving.check content store).result = .ok true ↔ saving.HasPlace store.catalog) := by
  have hstate : (saving.check content store).state = store := by
    rcases saving.state_check content store with hsame | hread
    · exact hsame
    · exact hread.trans h.state
  refine ⟨hstate, ?_⟩
  cases saving with
  | parameters p =>
    by_cases hid : p.id = []
    · simp [check, FileStore.check, hid, HasPlace, Outcome.fail]
    · cases hkey : p.key with
      | error e => simp [check, FileStore.check, hid, hkey, HasPlace, Outcome.fail]
      | ok key =>
        have hresult : (store.check p content).result = .ok (store.catalog.hasRoom p.id key) :=
          (h.check_eq hid hkey).result
        simp [check, hresult, HasPlace, hid, hkey]
  | set s =>
    rw [check, FileStore.checkSet, Outcome.andThen_of_ok h.result, h.state, HasPlace,
      ← FileStore.missingMember?_eq_none_iff]
    cases store.catalog.set? s.hash with
    | some held => simp [Outcome.done, Outcome.reporting]
    | none =>
      cases store.missingMember? s <;> simp [Outcome.done, Outcome.fail, Outcome.reporting]

/-- Confirming finds out whether there is an object after reading. -/
theorem confirm_iff {saving : Saving} {catalog : Catalog} (hplace : saving.HasPlace catalog)
    {after : FileStore} (hback : (store.reconcile content).Yields (.ok ()) after) :
    (saving.confirm content store).state = after ∧
      ((saving.confirm content store).result = .ok true ↔ saving.IsHeld after.catalog) := by
  cases saving with
  | parameters p =>
    obtain ⟨-, key, hkey, -⟩ := hplace
    obtain ⟨hresult, hstate⟩ := FileStore.confirm_eq hkey hback
    refine ⟨hstate, ?_⟩
    rw [confirm, hresult, IsHeld, FileStore.settle]
    split
    · next hheld => simpa [Outcome.done] using hheld
    · next hnone => split <;> simpa [Outcome.fail] using hnone
  | set s =>
    obtain ⟨hresult, hstate⟩ := FileStore.confirmSet_eq hback s
    refine ⟨hstate, ?_⟩
    rw [confirm, hresult, IsHeld]
    split
    · next hheld => simpa using hheld
    · next hnone => simpa using hnone

/-- A save without a place does nothing. -/
theorem save_without_place (h : store.Settled content) {saving : Saving}
    (hplace : ¬ saving.HasPlace store.catalog) (group : Bytes) :
    (saving.save group content store).state = (store, content) ∧
      (saving.save group content store).result ≠ .ok true := by
  obtain ⟨hstate, hchecked⟩ := saving.check_iff h
  have hkept {result : Except StoreError Bool} (hresult : result ≠ .ok true)
      (hsaved : (saving.save group content store).Yields result (store, content)) :
      (saving.save group content store).state = (store, content) ∧
        (saving.save group content store).result ≠ .ok true :=
    ⟨hsaved.state, hsaved.result ▸ hresult⟩
  cases hresult : (saving.check content store).result with
  | error e =>
    have hcheck : (saving.check content store).Yields (.error e) store := ⟨hresult, hstate⟩
    have hnot : (.error e : Except StoreError Bool) ≠ .ok true := by simp
    apply hkept hnot
    rw [save_eq]
    exact (hcheck.mapState (·, content)).andThen_error _
  | ok hasRoom =>
    cases hasRoom with
    | true => exact absurd (hchecked.mp hresult) hplace
    | false =>
      have hcheck : (saving.check content store).Yields (.ok false) store := ⟨hresult, hstate⟩
      have hnot : (.ok false : Except StoreError Bool) ≠ .ok true := by simp
      apply hkept hnot
      rw [save_eq]
      exact (hcheck.mapState (·, content)).andThen ⟨rfl, rfl⟩

/-- A save whose record cannot be appended leaves nothing behind. -/
theorem save_unappended (h : store.Settled content) {saving : Saving}
    (hplace : saving.HasPlace store.catalog) {group : Bytes} {e : StoreError}
    (happend : (store.append saving.record.kind saving.record.id saving.record.data group
      content).Yields (.error e) content) :
    (saving.save group content store).Yields (.error e) (store, content) := by
  obtain ⟨hstate, hchecked⟩ := saving.check_iff h
  have hcheck : (saving.check content store).Yields (.ok true) store :=
    ⟨hchecked.mpr hplace, hstate⟩
  rw [save_eq]
  refine (hcheck.mapState (·, content)).andThen ?_
  dsimp only
  rw [if_pos rfl]
  exact (happend.mapState (store, ·)).andThen_error _

/-- A save whose record has been appended comes to what is read back. -/
theorem save_appended (h : store.Settled content) {saving : Saving}
    (hplace : saving.HasPlace store.catalog) {group more : Bytes}
    (happend : (store.append saving.record.kind saving.record.id saving.record.data group
      content).Yields (.ok ()) more)
    {after : FileStore} (hback : (store.reconcile more).Yields (.ok ()) after) :
    (saving.save group content store).state = (after, more) ∧
      ((saving.save group content store).result = .ok true ↔ saving.IsHeld after.catalog) := by
  obtain ⟨hstate, hchecked⟩ := saving.check_iff h
  have hcheck : (saving.check content store).Yields (.ok true) store :=
    ⟨hchecked.mpr hplace, hstate⟩
  obtain ⟨hconfirmed, hheld⟩ := confirm_iff hplace hback
  have hconfirm : (saving.confirm more store).Yields (saving.confirm more store).result after :=
    ⟨rfl, hconfirmed⟩
  have hsaved : (saving.save group content store).Yields (saving.confirm more store).result
      (after, more) := by
    rw [save_eq]
    refine (hcheck.mapState (·, content)).andThen ?_
    dsimp only
    rw [if_pos rfl]
    exact (happend.mapState (store, ·)).andThen (hconfirm.mapState (·, more))
  rw [hsaved.state, hsaved.result]
  exact ⟨rfl, hheld⟩

end Saving

/-- A log refuses to write if it is open for reading only, and entries that are too large. -/
theorem Log.write_refused {log : Log} {entry : Entry}
    (h : ¬ (log.writable = true ∧ entry.size ≤ greatestEntrySize)) (group content : Bytes) :
    ∃ e, (log.write entry group content).Yields (.error e) content := by
  rw [write]
  split
  · exact ⟨_, rfl, rfl⟩
  · next hwritable =>
    cases hrow : entry.frames group log.frameSize with
    | error e => exact ⟨e, rfl, rfl⟩
    | ok row =>
      have hsmall := (Entry.frames_eq_numbered hrow).1
      exact absurd ⟨by simpa using hwritable, hsmall⟩ h

/-! ### Runs -/

/-- The frame size is one that stores can be opened with. -/
def Opening.Allowed (opening : Opening) : Prop :=
  ∃ capacity, Frame.capacity opening.frameSize = .ok capacity

/-- A store and the content of the log that nobody else works on. -/
structure LoneStore where
  store : FileStore
  content : Bytes

namespace LoneStore

/-- A store that is opened on a log. -/
def opened (opening : Opening) (content : Bytes) : LoneStore :=
  ⟨(opening.load content).state, content⟩

/-- Saves something, under the group that is made up for its record; says whether it is new. -/
def save (alone : LoneStore) (saving : Saving) (group : Bytes) : Outcome LoneStore Bool :=
  (saving.save group alone.content alone.store).mapState fun (store, content) => ⟨store, content⟩

/-- Has the store do something. -/
def perform (alone : LoneStore) : Store.Command → Outcome LoneStore Store.Reply
  | .save p group => (alone.save (.parameters p) group).map .saved
  | .saveSet set group => (alone.save (.set set) group).map .savedSet
  | .delete p => ((alone.store.delete p).mapState (⟨·, alone.content⟩)).map .deleted
  | .deleteSet hash => ((alone.store.deleteSet hash).mapState (⟨·, alone.content⟩)).map .deletedSet
  | .ask query =>
    ((alone.store.ask query alone.content).mapState (⟨·, alone.content⟩)).map .answered

/-- Has the store do one thing after the other. -/
def obey : List Store.Command → LoneStore → LoneStore
  | [], alone => alone
  | command :: rest, alone => obey rest (alone.perform command).state

/-- The record of what is saved lands in the log: there is a place for it, and the log takes it. -/
structure Lands (alone : LoneStore) (saving : Saving) : Prop where
  place : saving.HasPlace alone.store.catalog
  writable : alone.store.log.writable = true
  small : saving.record.size ≤ greatestEntrySize

/-- The store has read all of the log, which holds these frames. -/
structure Level (alone : LoneStore) (frames : List Frame) : Prop where
  fits : ∀ frame ∈ frames, frame.Fits
  content : alone.content = bytesOf frames
  cursor : alone.store.log.cursor = .behind frames (bytesOf frames)
  framed : ∃ capacity, Frame.capacity alone.store.log.frameSize = .ok capacity

namespace Level

variable {alone : LoneStore} {frames : List Frame}

/-- Frames that are appended under groups of their own are taken in when the log is read. -/
theorem read_on (h : alone.Level frames) {rows : List Frame} (hfits : ∀ frame ∈ rows, frame.Fits)
    (hfresh : ∀ id ∈ groupIds rows, id ∉ groupIds frames) :
    (alone.store.reconcile (alone.content ++ bytesOf rows)).Yields (.ok ())
      { alone.store with
        catalog := alone.store.catalog.after ((found rows).map (·.2))
        log := { alone.store.log with
          cursor := .behind (frames ++ rows) (bytesOf (frames ++ rows)) } } := by
  have hread : alone.store.log.cursor.HasRead frames := by
    rw [h.cursor]
    exact Cursor.hasRead_behind _ _
  have hshows : Frame.Shows (alone.content ++ bytesOf rows) (frames ++ rows) := by
    rw [h.content, ← Frame.bytesOf_append]
    refine Frame.shows_bytesOf fun frame hframe => ?_
    exact (List.mem_append.mp hframe).elim (h.fits frame) (hfits frame)
  obtain ⟨hcontinues, hgiven⟩ := Cursor.given_of_fresh hfresh
  obtain ⟨⟨truncated, hresult⟩, hstate⟩ :=
    hread.read_on hshows hcontinues alone.store.log.path
  rw [h.content, ← Frame.bytesOf_append] at hresult hstate ⊢
  rw [hgiven] at hresult
  have hlog : ((alone.store.log.read (bytesOf (frames ++ rows))).mapState fun log =>
      { alone.store with log := log }).Yields (.ok ⟨(found rows).map (·.2), truncated⟩)
      { alone.store with
        log := { alone.store.log with
          cursor := .behind (frames ++ rows) (bytesOf (frames ++ rows)) } } := by
    refine ⟨hresult, ?_⟩
    rw [← hstate]
    rfl
  obtain ⟨hdone, habsorbed⟩ := FileStore.absorb_eq ⟨(found rows).map (·.2), truncated⟩
    { alone.store with
      log := { alone.store.log with
        cursor := .behind (frames ++ rows) (bytesOf (frames ++ rows)) } }
  exact hlog.andThen ⟨hdone, habsorbed⟩

/-- There is nothing to read. -/
theorem settled (h : alone.Level frames) : alone.store.Settled alone.content := by
  have hfits : ∀ frame ∈ ([] : List Frame), frame.Fits := by simp
  have hfresh : ∀ id ∈ groupIds [], id ∉ groupIds frames := by simp [groupIds]
  have hread := h.read_on hfits hfresh
  rw [Frame.bytesOf_nil, List.append_nil, List.append_nil, ← h.cursor] at hread
  exact hread

/-- A record that is appended under a group of its own is taken in when the log is read. -/
theorem read_row (h : alone.Level frames) {entry : Entry} {group : Bytes} {row : List Frame}
    (hrow : entry.frames group alone.store.log.frameSize = .ok row)
    (hfits : ∀ frame ∈ row, frame.Fits) (hfresh : group ∉ groupIds frames) :
    ∃ after, (alone.store.reconcile (alone.content ++ bytesOf row)).Yields (.ok ()) after ∧
      Level ⟨after, alone.content ++ bytesOf row⟩ (frames ++ row) ∧
      after.catalog = alone.store.catalog.hold entry.content ∧
      after.settings = alone.store.settings := by
  have hread := h.read_on hfits (by simpa [Frame.groupIds_frames hrow] using hfresh)
  have hcatalog : alone.store.catalog.after ((found row).map (·.2)) =
      alone.store.catalog.hold entry.content := by
    rw [Assembly.found_frames hrow]
    exact Catalog.after_cons ..
  refine ⟨_, hread, ⟨?_, ?_, rfl, h.framed⟩, hcatalog, ?_⟩
  · intro frame hframe
    exact (List.mem_append.mp hframe).elim (h.fits frame) (hfits frame)
  · rw [h.content, Frame.bytesOf_append]
  · simp only [FileStore.settings, FileStore.config_after]

/-- A save that does not land leaves the log and the store as they are. -/
theorem save_refused (h : alone.Level frames) {saving : Saving} (hlands : ¬ alone.Lands saving)
    (group : Bytes) :
    (alone.save saving group).state = alone ∧ (alone.save saving group).result ≠ .ok true := by
  have hkept {result : Except StoreError Bool} (hresult : result ≠ .ok true)
      (hsaved : (saving.save group alone.content alone.store).Yields result
        (alone.store, alone.content)) :
      (alone.save saving group).state = alone ∧ (alone.save saving group).result ≠ .ok true := by
    obtain ⟨hfailed, hstate⟩ := hsaved.mapState fun (store, content) => LoneStore.mk store content
    exact ⟨hstate, by rwa [save, hfailed]⟩
  by_cases hplace : saving.HasPlace alone.store.catalog
  · have hrefused : ¬ (alone.store.log.writable = true ∧
        saving.record.size ≤ greatestEntrySize) :=
      fun htaken => hlands ⟨hplace, htaken.1, htaken.2⟩
    obtain ⟨e, hwrite⟩ := Log.write_refused hrefused group alone.content
    exact hkept (by simp) (Saving.save_unappended h.settled hplace (hwrite.andThen_error _))
  · obtain ⟨hstate, hresult⟩ := Saving.save_without_place h.settled hplace group
    exact hkept hresult ⟨rfl, hstate⟩

/-- A save that lands appends its record, which is taken in. -/
theorem save_landed (h : alone.Level frames) {saving : Saving} (hlands : alone.Lands saving)
    {group : Bytes} (hfresh : group ∉ groupIds frames) (hgroup : group.length ≤ greatestField) :
    ∃ row, saving.record.frames group alone.store.log.frameSize = .ok row ∧
      (alone.save saving group).state.Level (frames ++ row) ∧
      (alone.save saving group).state.store.catalog =
        alone.store.catalog.hold saving.record.content ∧
      (alone.save saving group).state.store.settings = alone.store.settings ∧
      ((alone.save saving group).result = .ok true ↔
        saving.IsHeld (alone.save saving group).state.store.catalog) := by
  obtain ⟨row, hrow, happend⟩ :=
    FileStore.append_eq hlands.writable h.framed hlands.small hgroup alone.content
  obtain ⟨after, hback, hlevel, hcatalog, hsettings⟩ :=
    h.read_row hrow (Frame.fits_of_frames hrow hgroup) hfresh
  obtain ⟨hstate, hresult⟩ := Saving.save_appended h.settled hlands.place happend hback
  have hsaved : (alone.save saving group).state = ⟨after, alone.content ++ bytesOf row⟩ :=
    congrArg (fun (store, content) => LoneStore.mk store content) hstate
  refine ⟨row, hrow, ?_⟩
  rw [hsaved]
  exact ⟨hlevel, hcatalog, hsettings, hresult⟩

/-- The frames that a command appends, if any, and what it leaves of the catalog. -/
theorem perform (h : alone.Level frames) {command : Store.Command}
    (hgroups : Frame.MadeUp frames command.groups) :
    ∃ rows, groupIds rows ⊆ command.groups ∧ (alone.perform command).state.Level (frames ++ rows) ∧
      (¬ command.Deletes → (alone.perform command).state.store.catalog =
        alone.store.catalog.after ((found rows).map (·.2))) := by
  have hsame {after : LoneStore} (hlevel : after.Level frames)
      (hcatalog : ¬ command.Deletes → after.store.catalog = alone.store.catalog) :
      ∃ rows, groupIds rows ⊆ command.groups ∧ after.Level (frames ++ rows) ∧
        (¬ command.Deletes → after.store.catalog =
          alone.store.catalog.after ((found rows).map (·.2))) :=
    ⟨[], List.nil_subset _, by rwa [List.append_nil], hcatalog⟩
  have hsave (saving : Saving) (group : Bytes) (hown : command.groups = [group]) :
      ∃ rows, groupIds rows ⊆ command.groups ∧
        (alone.save saving group).state.Level (frames ++ rows) ∧
        (¬ command.Deletes → (alone.save saving group).state.store.catalog =
          alone.store.catalog.after ((found rows).map (·.2))) := by
    by_cases hlands : alone.Lands saving
    · have hmem : group ∈ command.groups := hown ▸ List.mem_singleton_self group
      obtain ⟨row, hrow, hlevel, hcatalog, -⟩ :=
        h.save_landed hlands (hgroups.fresh group hmem) (hgroups.fit group hmem)
      refine ⟨row, ?_, hlevel, fun _ => ?_⟩
      · rw [hown, Frame.groupIds_frames hrow]
        exact List.Subset.refl _
      · rw [hcatalog, Assembly.found_frames hrow, List.map_singleton, Catalog.after_cons,
          Catalog.after_nil]
    · obtain ⟨hstate, -⟩ := h.save_refused hlands group
      rw [hstate]
      exact hsame h fun _ => rfl
  cases command with
  | save p group => exact hsave (.parameters p) group rfl
  | saveSet set group => exact hsave (.set set) group rfl
  | delete p =>
    exact hsame ⟨h.fits, h.content, h.cursor, h.framed⟩ fun hkeeps => absurd trivial hkeeps
  | deleteSet hash =>
    exact hsame ⟨h.fits, h.content, h.cursor, h.framed⟩ fun hkeeps => absurd trivial hkeeps
  | ask query =>
    have hkept : (alone.perform (.ask query)).state = alone :=
      congrArg (LoneStore.mk · alone.content) (h.settled.ask_eq query).state
    rw [hkept]
    exact hsame h fun _ => rfl

/-- The frames that commands append, one after the other, and what they leave of the catalog. -/
theorem obey (h : alone.Level frames) {commands : List Store.Command}
    (hgroups : Frame.MadeUp frames (commands.flatMap (·.groups))) :
    ∃ rows, groupIds rows ⊆ commands.flatMap (·.groups) ∧
      (alone.obey commands).Level (frames ++ rows) ∧
      ((∀ command ∈ commands, ¬ command.Deletes) → (alone.obey commands).store.catalog =
        alone.store.catalog.after ((found rows).map (·.2))) := by
  induction commands generalizing alone frames with
  | nil => exact ⟨[], List.nil_subset _, by rwa [List.append_nil], fun _ => rfl⟩
  | cons command rest ih =>
    rw [List.flatMap_cons] at hgroups ⊢
    obtain ⟨row, hrow, hlevel, hcatalog⟩ := h.perform hgroups.of_append
    have hbehind := hgroups.behind hrow
    obtain ⟨rows, hrows, hlast, hreplayed⟩ := ih hlevel hbehind
    refine ⟨row ++ rows, fun id hid => ?_, ?_, fun hkeeps => ?_⟩
    · apply List.mem_append.mpr
      exact (Frame.mem_groupIds_append.mp hid).imp (fun hid => hrow hid) fun hid => hrows hid
    · rwa [← List.append_assoc]
    · have hfirst := hcatalog (hkeeps command List.mem_cons_self)
      have hrest := hreplayed fun other hother => hkeeps other (List.mem_cons_of_mem _ hother)
      have hapart : ∀ id ∈ groupIds rows, id ∉ groupIds row := fun id hid hmem =>
        hbehind.fresh id (hrows hid) (Frame.mem_groupIds_append.mpr (.inr hmem))
      rw [LoneStore.obey, hrest, hfirst, ← Catalog.after_append, ← List.map_append,
        Assembly.found_append_of_disjoint hapart]

end Level

/-- A store that is opened on a log of frames has read it, and its catalog is the one that the log
holds. -/
theorem opened_level {opening : Opening} (hallowed : opening.Allowed) {base : List Frame}
    (hfits : ∀ frame ∈ base, frame.Fits) :
    (opening.load (bytesOf base)).result = .ok () ∧ (opened opening (bytesOf base)).Level base ∧
      (opened opening (bytesOf base)).store.catalog =
        (Catalog.new opening.config).after ((found base).map (·.2)) ∧
      (opened opening (bytesOf base)).store.log.writable = opening.writable := by
  let log := Log.opened opening.path opening.frameSize opening.writable
  let loaded : FileStore := ⟨opening.id, (Catalog.new opening.config).after
    ((found base).map (·.2)), { log with cursor := .behind base (bytesOf base) }⟩
  have hblank : Level ⟨⟨opening.id, .new opening.config, log⟩, []⟩ [] :=
    ⟨by simp, rfl, rfl, hallowed⟩
  have hfresh : ∀ id ∈ groupIds base, id ∉ groupIds [] := by simp [groupIds]
  have hread : (FileStore.reconcile (bytesOf base) ⟨opening.id, .new opening.config, log⟩).Yields
      (.ok ()) loaded := hblank.read_on hfits hfresh
  have hload : (opening.load (bytesOf base)).Yields (.ok ()) loaded := by
    rw [Opening.load, FileStore.load]
    exact hread.andThen ⟨rfl, rfl⟩
  rw [opened, hload.state]
  exact ⟨hload.result, ⟨hfits, rfl, rfl, hallowed⟩, rfl, rfl⟩

theorem settings_opened (opening : Opening) {base : List Frame}
    (hfits : ∀ frame ∈ base, frame.Fits) :
    (opened opening (bytesOf base)).store.settings =
      (opening.id, opening.config, opening.path, opening.frameSize, opening.writable) :=
  (FileStore.load_opened (Frame.shows_bytesOf hfits) ..).2.2

/-! ### Looking up what was saved -/

/-- Looking up the identifier of parameters and looking up their action and group both find good
ones. -/
def Finds (alone : LoneStore) (p : Parameters) (good : Parameters → Prop) : Prop :=
  (∃ q, (alone.store.ask (.byId p.id) alone.content).result = .ok (.parameters (some q)) ∧
    good q) ∧
  ∃ q, (alone.store.ask (.byKey p.action p.group) alone.content).result =
    .ok (.parameters (some q)) ∧ good q

theorem Level.finds_iff {alone : LoneStore} {frames : List Frame} (h : alone.Level frames)
    (p : Parameters) (good : Parameters → Prop)
    (hgood : ∀ q, good (q.stamp alone.store.id) ↔ good q) :
    alone.Finds p good ↔ (∃ q, alone.store.catalog.get? p.id = some q ∧ good q) ∧
      ∃ q, alone.store.catalog.find p.action p.group = .ok (some q) ∧ good q := by
  rw [Finds, (h.settled.ask_eq (.byId p.id)).result,
    (h.settled.ask_eq (.byKey p.action p.group)).result, Catalog.answer, Catalog.answer]
  cases alone.store.catalog.find p.action p.group <;>
    simp [Except.map, Answer.stamp, hgood]

/-- A store that has just been opened for writing on an empty log. -/
def blank : LoneStore := opened ⟨⟨[1]⟩, [], "log", 64, true⟩ []

theorem blank_level :
    blank.Level [] ∧ blank.store.catalog = .new [] ∧ blank.store.log.writable = true := by
  have hnone : ∀ frame ∈ ([] : List Frame), frame.Fits := by simp
  have hallowed : Opening.Allowed ⟨⟨[1]⟩, [], "log", 64, true⟩ := ⟨_, rfl⟩
  exact (opened_level hallowed hnone).2

theorem settings_blank : blank.store.settings = (⟨[1]⟩, [], "log", 64, true) := by
  have hsettings := settings_opened ⟨⟨[1]⟩, [], "log", 64, true⟩ blank_level.1.fits
  exact hsettings

/-- Parameters with an identifier and a key land in an empty log, unless they are too large. -/
theorem lands_blank {p : Parameters} (hid : p.id ≠ []) (haction : p.action.id ≠ [])
    (hsmall : (Saving.parameters p).record.size ≤ greatestEntrySize) :
    blank.Lands (.parameters p) := by
  obtain ⟨-, hcatalog, hwritable⟩ := blank_level
  obtain ⟨key, hkey⟩ := p.key_isOk.mpr haction
  have hplace : (Saving.parameters p).HasPlace blank.store.catalog := by
    rw [hcatalog]
    exact ⟨hid, key, hkey, rfl⟩
  exact ⟨hplace, hwritable, hsmall⟩

end LoneStore
end ParameterLog
