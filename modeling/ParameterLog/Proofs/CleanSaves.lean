/-
Module: ParameterLog.Proofs.CleanSaves
Purpose: when a save that does not succeed leaves the log alone.
Main exports: LoneStore.SavesCleanly, LoneStore.Level.savesCleanly_iff,
  LoneStore.saves_cleanly_iff, LoneStore.Level.save_unreadable, LoneStore.deep_left_behind,
  LoneStore.Level.save_rekeyed, LoneStore.tuned_lost
-/
import ParameterLog.Proofs.LoneStore

/-!
A save of parameters is clean if it either succeeds, appends the frames of their record, and has
them found from then on, or leaves the log as it was (`SavesCleanly`).

The record is appended before anybody looks whether it can be read. So a save is clean if and only
if its record does not land or the parameters survive it (`saves_cleanly_iff`). Parameters whose
record cannot be read back, as their value nests too deep for the reader, are refused with an error
when their record is in the log for good (`Level.save_unreadable`). Parameters whose record is read
back with another key, as a number of their action's configuration is not the one that was written,
are acknowledged and then not found by their own key (`Level.save_rekeyed`).
-/

namespace ParameterLog

open ParameterLog.Frame (bytesOf groupIds)
open Outcome (Yields)
open Store (Survives)

namespace LoneStore

/-- A save of parameters appends the frames of their record and has them found, or it does not
succeed and leaves the log as it was. -/
def SavesCleanly (alone : LoneStore) (p : Parameters) (group : Bytes) : Prop :=
  let saved := alone.save (.parameters p) group
  (saved.result = .ok true ∧ saved.state.Finds p (·.same p = true) ∧
    ∃ row, (Saving.parameters p).record.frames group alone.store.log.frameSize = .ok row ∧
      saved.state.content = alone.content ++ bytesOf row) ∨
  (saved.result ≠ .ok true ∧ saved.state.content = alone.content)

end LoneStore

namespace Catalog

variable {catalog : Catalog} {p : Parameters} {key : LookupKey}

/-- Parameters that survive are held under their identifier and their key if there is a place. -/
theorem holds_of_survives (hkey : p.key = .ok key) (hroom : catalog.hasRoom p.id key = true)
    (hsurvives : Survives p) :
    ∃ q, q.same p = true ∧
      (catalog.hold (Saving.parameters p).record.content).get? p.id = some q ∧
      (catalog.hold (Saving.parameters p).record.content).find p.action p.group = .ok (some q) := by
  obtain ⟨q, hread, hsame⟩ := hsurvives
  obtain ⟨hnamed, hkeyed⟩ := Parameters.key_of_echo (p.ofBytes_toBytes.symm.trans hread) hsame
  have hcontent : (Saving.parameters p).record.content = .parameters q key :=
    Entry.content_parameters hread hnamed (hkeyed.trans hkey)
  rw [Parameters.key] at hkey
  rw [hcontent, hold, hnamed, if_pos hroom, find, hkey]
  refine ⟨q, hsame, ?_, congrArg Except.ok (ofKey?_insert_self _ _ _)⟩
  rw [get?_insert, if_pos hnamed.symm]

/-- What is held under a free identifier once a record has been taken in was read from it. -/
theorem read_of_hold (hroom : catalog.hasRoom p.id key = true) {q : Parameters}
    (h : (catalog.hold (Saving.parameters p).record.content).get? p.id = some q) :
    Parameters.ofBytes p.toBytes = .ok q := by
  rcases get?_hold h with hbefore | ⟨-, other, hcontent, -⟩
  · rw [(hasRoom_iff.mp hroom).1] at hbefore
    contradiction
  · exact (Entry.content_eq_parameters.mp hcontent).2.1

/-- A record that cannot be read changes nothing. -/
theorem hold_unreadable (hread : ∀ q, Parameters.ofBytes p.toBytes ≠ .ok q) :
    catalog.hold (Saving.parameters p).record.content = catalog := by
  have hcontent : (Saving.parameters p).record.content = .nothing := by
    rw [Saving.record, Entry.content]
    cases hbytes : Parameters.ofBytes p.toBytes with
    | error e => rfl
    | ok q => exact absurd hbytes (hread q)
  rw [hcontent]
  rfl

end Catalog

namespace LoneStore

variable {alone : LoneStore} {frames : List Frame} {p : Parameters} {group : Bytes}

/-- Frames that have landed stand behind what was in the log. -/
theorem Level.content_landed (h : alone.Level frames) {row : List Frame} {after : LoneStore}
    (hlevel : after.Level (frames ++ row)) : after.content = alone.content ++ bytesOf row := by
  rw [hlevel.content, h.content, Frame.bytesOf_append]

/-- A log that a record has been appended to is another one. -/
theorem content_ne {entry : Entry} {frameSize : Nat} {row : List Frame} {content more : Bytes}
    (hrow : entry.frames group frameSize = .ok row) (h : more = content ++ bytesOf row) :
    more ≠ content := by
  rintro rfl
  have hnone : bytesOf row = [] := List.append_right_eq_self.mp h.symm
  exact (Frame.isStart_of_frames hrow).2 (Frame.bytesOf_eq_nil (congrArg List.length hnone))

/-- Saving parameters is clean if their record does not land or they survive it, and not else. -/
theorem Level.savesCleanly_iff (h : alone.Level frames) (hfresh : group ∉ groupIds frames)
    (hgroup : group.length ≤ greatestField) :
    alone.SavesCleanly p group ↔ (alone.Lands (.parameters p) → Survives p) := by
  by_cases hlands : alone.Lands (.parameters p)
  · obtain ⟨row, hrow, hlevel, hcatalog, -, hresult⟩ := h.save_landed hlands hfresh hgroup
    obtain ⟨-, key, hkey, hroom⟩ := hlands.place
    have hcontent := h.content_landed hlevel
    have hfinds := hlevel.finds_iff p (·.same p = true) fun _ => Iff.rfl
    constructor
    · rintro (⟨-, hfound, -⟩ | ⟨-, hkept⟩) -
      · obtain ⟨⟨q, hget, hsame⟩, -⟩ := hfinds.mp hfound
        rw [hcatalog] at hget
        exact ⟨q, Catalog.read_of_hold hroom hget, hsame⟩
      · exact absurd hkept (content_ne hrow hcontent)
    · intro hsurvives
      obtain ⟨q, hsame, hget, hfind⟩ := Catalog.holds_of_survives hkey hroom (hsurvives hlands)
      rw [← hcatalog] at hget hfind
      have hheld : (Saving.parameters p).IsHeld
          (alone.save (.parameters p) group).state.store.catalog := by
        rw [Saving.IsHeld, hget]
        rfl
      have hfound := hfinds.mpr ⟨⟨q, hget, hsame⟩, q, hfind, hsame⟩
      exact .inl ⟨hresult.mpr hheld, hfound, row, hrow, hcontent⟩
  · obtain ⟨hstate, hresult⟩ := h.save_refused hlands group
    refine iff_of_true (.inr ⟨hresult, ?_⟩) fun hlanded => absurd hlanded hlands
    rw [hstate]

/-- Whatever a store has been told on a log that nobody else works on, saving parameters is clean if
their record does not land or they survive it, and not else. -/
theorem saves_cleanly_iff {opening : Opening} (hallowed : opening.Allowed) {base : List Frame}
    (hbase : ∀ frame ∈ base, frame.Fits) {commands : List Store.Command} {group : Bytes}
    (hgroups : Frame.MadeUp base (commands.flatMap (·.groups) ++ [group])) (p : Parameters) :
    let alone := (opened opening (bytesOf base)).obey commands
    alone.SavesCleanly p group ↔ (alone.Lands (.parameters p) → Survives p) := by
  obtain ⟨-, hstart, -, -⟩ := opened_level hallowed hbase
  obtain ⟨rows, hrows, hlevel, -⟩ := hstart.obey hgroups.of_append
  have hnew := hgroups.behind hrows
  have hgroup := List.mem_singleton_self group
  exact hlevel.savesCleanly_iff (hnew.fresh group hgroup) (hnew.fit group hgroup)

theorem saves_cleanly_iff_errands :
    let opening : Opening := ⟨⟨[1]⟩, [], "log", 64, true⟩
    opening.Allowed ∧ (∀ frame ∈ SharedLog.abandoned, frame.Fits) ∧
      Frame.MadeUp SharedLog.abandoned (Store.errands.flatMap (·.groups) ++ [[0xa5]]) ∧
      let alone := (opened opening (bytesOf SharedLog.abandoned)).obey Store.errands
      (alone.SavesCleanly (.sample 2) [0xa5] ↔
        (alone.Lands (.parameters (.sample 2)) → Survives (.sample 2))) := by
  intro opening
  have hallowed : opening.Allowed := ⟨_, rfl⟩
  have hbase : ∀ frame ∈ SharedLog.abandoned, frame.Fits := by decide
  have hgroups :
      Frame.MadeUp SharedLog.abandoned (Store.errands.flatMap (·.groups) ++ [[0xa5]]) :=
    ⟨by decide, by decide, by decide⟩
  exact ⟨hallowed, hbase, hgroups, saves_cleanly_iff hallowed hbase hgroups (.sample 2)⟩

/-! ### Records that cannot be read -/

/-- Parameters whose record cannot be read are refused with an error when it is in the log. -/
theorem Level.save_unreadable (h : alone.Level frames)
    (hlands : alone.Lands (.parameters p)) (hread : ∀ q, Parameters.ofBytes p.toBytes ≠ .ok q)
    (hfresh : group ∉ groupIds frames) (hgroup : group.length ≤ greatestField) :
    (alone.save (.parameters p) group).result = .error (.readBackFailed p.id.hex) ∧
      ∃ row, (Saving.parameters p).record.frames group alone.store.log.frameSize = .ok row ∧
        (alone.save (.parameters p) group).state.content = alone.content ++ bytesOf row := by
  obtain ⟨hid, key, hkey, hroom⟩ := hlands.place
  obtain ⟨row, hrow, happend⟩ :=
    FileStore.append_eq hlands.writable h.framed hlands.small hgroup alone.content
  obtain ⟨after, hback, -, hcatalog, -⟩ :=
    h.read_row hrow (Frame.fits_of_frames hrow hgroup) hfresh
  have hsaved := h.settled.save_placed hid hkey hroom happend hback
  obtain ⟨hfreeId, hfreeKey⟩ := Catalog.hasRoom_iff.mp hroom
  rw [Catalog.hold_unreadable hread] at hcatalog
  have hresult : (after.settle p key).result = .error (.readBackFailed p.id.hex) := by
    rw [FileStore.settle, hcatalog, hfreeId, hfreeKey]
    rfl
  refine ⟨hsaved.result.trans hresult, row, hrow, ?_⟩
  exact congrArg Prod.snd hsaved.state

end LoneStore

/-- A value that nests to a depth. -/
def Json.Value.nested : Nat → Json.Value
  | 0 => .null
  | depth + 1 => .array [nested depth]

/-- A value that nests deeper than the reader goes is not read back. -/
theorem Json.Value.echo_nested {levels depth : Nat} (h : levels < depth) :
    (nested depth).echo levels = .error .malformed := by
  induction levels generalizing depth with
  | zero =>
    obtain ⟨depth, rfl⟩ := Nat.exists_eq_succ_of_ne_zero (Nat.ne_of_gt h)
    rfl
  | succ levels ih =>
    obtain ⟨depth, rfl⟩ := Nat.exists_eq_succ_of_ne_zero (Nat.ne_of_gt (Nat.zero_lt_of_lt h))
    rw [nested, echo, List.mapM_cons, ih (Nat.succ_lt_succ_iff.mp h)]
    rfl

/-- Parameters whose value nests one level deeper than records of parameters are read. -/
def Parameters.deep : Parameters := { Parameters.sample 1 with value := some (.nested 127) }

theorem Parameters.deep_unreadable (q : Parameters) : ofBytes deep.toBytes ≠ .ok q := by
  have hconfig : deep.action.config.echo 125 = .ok [] := rfl
  have hdata : deep.group.data.echo 125 = .ok [] := rfl
  have hvalue : (Json.Value.ofOption deep.value).echo 126 = .error .malformed :=
    Json.Value.echo_nested (by decide)
  have hecho : deep.echo 125 = .error .malformed := by
    rw [echo, hconfig, hdata, hvalue]
    rfl
  rw [ofBytes_toBytes, hecho]
  simp

namespace LoneStore

theorem lands_deep : blank.Lands (.parameters .deep) :=
  lands_blank (by decide) (by decide) (by decide +kernel)

/-- The record of parameters that nest too deep stays in the log when they are refused. -/
theorem deep_left_behind :
    (blank.save (.parameters .deep) [0xa1]).result = .error (.readBackFailed "01") ∧
      (blank.save (.parameters .deep) [0xa1]).state.content ≠ blank.content ∧
      ¬ blank.SavesCleanly .deep [0xa1] := by
  have hlevel := blank_level.1
  have hfresh : [0xa1] ∉ groupIds [] := by simp [groupIds]
  have hgroup : [0xa1].length ≤ greatestField := by decide
  obtain ⟨hresult, row, hrow, hcontent⟩ :=
    hlevel.save_unreadable lands_deep Parameters.deep_unreadable hfresh hgroup
  refine ⟨hresult, content_ne hrow hcontent, fun hclean => ?_⟩
  obtain ⟨q, hread, -⟩ := (hlevel.savesCleanly_iff hfresh hgroup).mp hclean lands_deep
  exact Parameters.deep_unreadable q hread

end LoneStore

/-! ### Records that are read back with another key -/

/-- Taking in parameters with another key leaves a free key leading nowhere. -/
theorem Catalog.find_hold_rekeyed {catalog : Catalog} {p : Parameters} {key other : LookupKey}
    (hkey : p.key = .ok key) (hne : key ≠ other) (hfree : catalog.idOfKey.find? key = none)
    (q : Parameters) :
    (catalog.hold (.parameters q other)).find p.action p.group = .ok none := by
  have hbound (room : Bool) :
      (if room then catalog.insert other q else catalog).idOfKey.find? key = none := by
    cases room
    · exact hfree
    · rw [if_pos rfl, boundId_insert, if_neg hne, hfree]
  rw [hold, find_of_key _ hkey, ofKey?, hbound]
  rfl

namespace LoneStore

variable {alone : LoneStore} {frames : List Frame} {p q : Parameters} {group : Bytes}

/-- Parameters whose record is read back with another key are new, and their own key leads nowhere
as it did before. -/
theorem Level.save_rekeyed (h : alone.Level frames) (hlands : alone.Lands (.parameters p))
    (hread : Parameters.ofBytes p.toBytes = .ok q) (hid : q.id = p.id) {key other : LookupKey}
    (hkey : p.key = .ok key) (hother : q.key = .ok other) (hne : key ≠ other)
    (hroom : alone.store.catalog.hasRoom q.id other = true)
    (hfree : alone.store.catalog.idOfKey.find? key = none)
    (hfresh : group ∉ groupIds frames) (hgroup : group.length ≤ greatestField) :
    let saved := alone.save (.parameters p) group
    saved.result = .ok true ∧
      (saved.state.store.ask (.byKey p.action p.group) saved.state.content).result =
        .ok (.parameters none) := by
  obtain ⟨row, -, hlevel, hcatalog, -, hresult⟩ := h.save_landed hlands hfresh hgroup
  have hcontent : (Saving.parameters p).record.content = .parameters q other :=
    Entry.content_parameters hread hid hother
  rw [hcontent] at hcatalog
  constructor
  · refine hresult.mpr ?_
    rw [hcatalog, Catalog.hold, if_pos hroom, Saving.IsHeld, Catalog.get?_insert, if_pos hid.symm]
    rfl
  · rw [(hlevel.settled.ask_eq (.byKey p.action p.group)).result, Catalog.answer, hcatalog,
      Catalog.find_hold_rekeyed hkey hne hfree]
    rfl

/-- A save that succeeds is not clean if the key of what was saved leads nowhere. -/
theorem not_savesCleanly_of_lost
    (hresult : (alone.save (.parameters p) group).result = .ok true)
    (hlost : ((alone.save (.parameters p) group).state.store.ask (.byKey p.action p.group)
      (alone.save (.parameters p) group).state.content).result = .ok (.parameters none)) :
    ¬ alone.SavesCleanly p group := by
  rintro (⟨-, ⟨-, q, hfound, -⟩, -⟩ | ⟨hfailed, -⟩)
  · rw [hlost] at hfound
    simp at hfound
  · exact hfailed hresult

end LoneStore

/-- Parameters of an action that is configured with a number, given in units of `2 ^ 27`. -/
def Parameters.tuned (units : Nat) : Parameters :=
  let plain := Parameters.sample 1
  let config := [("x", .number (.double ⟨false, units, 27⟩))]
  { plain with action := { plain.action with config := config } }

/-- The number is written as 1.0999999999999999e+24 and read back as the next one, 1.1e+24. -/
theorem Parameters.read_tuned :
    ofBytes (tuned 8195638656616210).toBytes = .ok (tuned 8195638656616211) := by
  have hnumber : (Json.Number.double ⟨false, 8195638656616210, 27⟩).echo =
      .ok (.double ⟨false, 8195638656616211, 27⟩) := by decide +kernel
  have hconfig : (tuned 8195638656616210).action.config.echo 125 =
      .ok (tuned 8195638656616211).action.config := by
    simp only [tuned, Json.Members.echo, List.mapM_cons, Json.Value.echo, hnumber]
    rfl
  have hdata : (tuned 8195638656616210).group.data.echo 125 = .ok [] := rfl
  rw [ofBytes_toBytes, echo, hconfig, hdata]
  rfl

namespace LoneStore

/-- Parameters are acknowledged and then not found by their action and group. -/
theorem tuned_lost :
    let p := Parameters.tuned 8195638656616210
    let saved := blank.save (.parameters p) [0xa1]
    saved.result = .ok true ∧
      (saved.state.store.ask (.byKey p.action p.group) saved.state.content).result =
        .ok (.parameters none) ∧
      ¬ blank.SavesCleanly p [0xa1] := by
  intro p saved
  obtain ⟨hlevel, hcatalog, -⟩ := blank_level
  have hfresh : [0xa1] ∉ groupIds [] := by simp [groupIds]
  have hlands : blank.Lands (.parameters p) :=
    lands_blank (by decide) (by decide) (by decide +kernel)
  have hkey (units : Nat) : (Parameters.tuned units).key =
      .ok ⟨[0x41], (Parameters.tuned units).action.configHash, []⟩ := rfl
  have hhash : p.action.configHash ≠ (Parameters.tuned 8195638656616211).action.configHash := by
    decide +kernel
  have hne : (⟨[0x41], p.action.configHash, []⟩ : LookupKey) ≠
      ⟨[0x41], (Parameters.tuned 8195638656616211).action.configHash, []⟩ :=
    fun heq => hhash (congrArg (·.configHash) heq)
  have hroom (id : Bytes) (key : LookupKey) : blank.store.catalog.hasRoom id key = true := by
    rw [hcatalog]
    rfl
  have hfree (key : LookupKey) : blank.store.catalog.idOfKey.find? key = none := by
    rw [hcatalog]
    rfl
  obtain ⟨hresult, hlost⟩ := hlevel.save_rekeyed hlands Parameters.read_tuned rfl (hkey _) (hkey _)
    hne (hroom _ _) (hfree _) hfresh (by decide)
  exact ⟨hresult, hlost, not_savesCleanly_of_lost hresult hlost⟩

end LoneStore
end ParameterLog
