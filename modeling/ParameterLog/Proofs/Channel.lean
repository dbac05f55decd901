/-
Module: ParameterLog.Proofs.Channel
Purpose: a log carries entries from all who write it to each one who reads it.
Main exports: Channel, Channel.Call, Channel.Note, Channel.run, Channel.sent, Channel.upToRead,
  Channel.received, Channel.Orderly, Channel.Carries, Channel.Carries.run,
  Channel.received_eq_sent
-/
import Mathlib.Data.List.DropRight
import ParameterLog.Proofs.Refinement
import ParameterLog.Proofs.Writings

/-!
Any number of handles is opened on one new file, each with a frame size of its own. They write and
read in any order, and none of them knows what the others do.

All along, the file holds the rows of frames of what has been sent, one after the other, and each
handle stands at the end of one of these rows and keeps no frames (`Carries`). Writing adds a row at
the end. Reading takes the rows from where the handle stands to the end, whatever the frame sizes
were that cut them, and gives out the entry of each. So what a handle has been given is what had
been sent when it read last (`received_eq_sent`).
-/

namespace ParameterLog

open ParameterLog.Frame (bytesOf groupIds Shows Continues)
open Outcome (Yields)

/-- The disk that a log lies on, and the handles that are open on it. -/
structure Channel where
  disk : Disk
  logs : Nat → Log

namespace Channel

/-- A call on one of the handles. The group of an entry is made up by the log. -/
inductive Call where
  | write (handle : Nat) (entry : Entry) (group : Bytes)
  | read (handle : Nat)
deriving Repr, DecidableEq

/-- What a call comes to. -/
inductive Note where
  | wrote (result : Except StoreError Unit)
  | read (handle : Nat) (result : Except StoreError Reading)

/-- Makes a call. -/
def step (place : Place) (channel : Channel) : Call → Channel × Note
  | .write handle entry group =>
    let outcome := (channel.logs handle).writeOn channel.disk place entry group
    ({ channel with disk := outcome.state }, .wrote outcome.result)
  | .read handle =>
    let outcome := (channel.logs handle).readOn channel.disk place
    ({ channel with logs := Function.update channel.logs handle outcome.state },
      .read handle outcome.result)

/-- Makes calls one after the other. -/
def run (place : Place) : Channel → List Call → Channel × List Note
  | channel, [] => (channel, [])
  | channel, call :: rest =>
    let (next, note) := channel.step place call
    let (last, notes) := run place next rest
    (last, note :: notes)

/-- The entry that a call writes, with its group. -/
def Call.sent? : Call → Option (Bytes × Entry)
  | .write _ entry group => some (group, entry)
  | .read _ => none

/-- The entries that calls write, each with its group. -/
def sent (calls : List Call) : List (Bytes × Entry) := calls.filterMap Call.sent?

/-- Whether a call reads by a handle. -/
def Call.readsBy (handle : Nat) : Call → Bool
  | .read other => other == handle
  | .write .. => false

/-- The calls up to the last one that reads by a handle. -/
def upToRead (handle : Nat) (calls : List Call) : List Call :=
  calls.rdropWhile fun call => !call.readsBy handle

/-- What a call gave to a handle. -/
def Note.given (handle : Nat) : Note → List Entry
  | .read other (.ok reading) => if other = handle then reading.entries else []
  | _ => []

/-- All that a handle has been given. -/
def received (handle : Nat) (notes : List Note) : List Entry := notes.flatMap (Note.given handle)

/-- The call succeeded. -/
def Note.Succeeds : Note → Prop
  | .wrote result => result = .ok ()
  | .read _ result => ∃ reading, result = .ok reading

/-- The entries are within the size limit, under different groups that fit their field, as the
sixteen bytes that logs make up do. -/
structure Orderly (calls : List Call) : Prop where
  fits : ∀ item ∈ sent calls, item.2.size ≤ greatestEntrySize ∧ item.1.length ≤ greatestField
  distinct : ((sent calls).map (·.1)).Nodup

/-- The handle was opened for writing on the file at a place. -/
def OpenedAt (place : Place) (log : Log) : Prop :=
  ∃ disk made path frameSize,
    (Log.openOn disk path frameSize true).Yields (.ok (log, place)) made

/-! ### What a handle stands behind -/

/-- What is sent by one more call. -/
theorem sent_concat (calls : List Call) (call : Call) :
    sent (calls ++ [call]) = sent calls ++ call.sent?.toList := by
  rw [sent, sent, List.filterMap_append]
  cases call <;> rfl

theorem upToRead_concat (handle : Nat) (calls : List Call) (call : Call) :
    upToRead handle (calls ++ [call]) =
      if call.readsBy handle then calls ++ [call] else upToRead handle calls := by
  rw [upToRead, List.rdropWhile_concat]
  cases call.readsBy handle <;> rfl

theorem received_concat (handle : Nat) (notes : List Note) (note : Note) :
    received handle (notes ++ [note]) = received handle notes ++ note.given handle := by
  rw [received, received, List.flatMap_append, List.flatMap_singleton]

/-- A writing, by its group and its entry. -/
def item (w : Writing) : Bytes × Entry := (w.group, w.entry)

/-- A handle stands behind the rows of the first writings and has been given their entries. -/
structure Reader (handle : Nat) (calls : List Call) (notes : List Note) (log : Log)
    (seen : List Writing) : Prop where
  usable : log.writable = true ∧ ∃ capacity, Frame.capacity log.frameSize = .ok capacity
  cursor : log.cursor = Cursor.behind (rowsOf seen) (bytesOf (rowsOf seen))
  read : seen.map item = sent (upToRead handle calls)
  given : received handle notes = seen.map (·.entry)

/-- The file holds the rows of what has been sent, and each handle stands at the end of one. -/
structure Carries (place : Place) (calls : List Call) (notes : List Note) (channel : Channel)
    (writings : List Writing) : Prop where
  content : channel.disk.content? place = some (bytesOf (rowsOf writings))
  succeed : ∀ w ∈ writings, w.Succeeds
  sent : writings.map item = Channel.sent calls
  success : ∀ note ∈ notes, note.Succeeds
  readers : ∀ handle, ∃ seen, seen <+: writings ∧
    Reader handle calls notes (channel.logs handle) seen

namespace Reader

variable {handle : Nat} {calls : List Call} {notes : List Note} {log : Log} {seen : List Writing}

/-- A call of another handle, or one that writes, leaves a handle where it is. -/
theorem pass (h : Reader handle calls notes log seen) {call : Call} {note : Note}
    (hcall : call.readsBy handle = false) (hnote : note.given handle = []) :
    Reader handle (calls ++ [call]) (notes ++ [note]) log seen := by
  refine ⟨h.usable, h.cursor, ?_, ?_⟩
  · rw [upToRead_concat, hcall, if_neg Bool.false_ne_true, h.read]
  · rw [received_concat, hnote, List.append_nil, h.given]

end Reader

namespace Carries

variable {place : Place} {calls : List Call} {notes : List Note} {channel : Channel}
  {writings : List Writing}

theorem distinct (h : Carries place calls notes channel writings)
    (hdistinct : ((Channel.sent calls).map (·.1)).Nodup) : (writings.map (·.group)).Nodup := by
  rw [← h.sent, List.map_map] at hdistinct
  exact hdistinct

/-- Writing adds the row of an entry at the end. -/
theorem write (h : Carries place calls notes channel writings) (handle : Nat) {entry : Entry}
    {group : Bytes} (hsize : entry.size ≤ greatestEntrySize)
    (hgroup : group.length ≤ greatestField) :
    let call := Call.write handle entry group
    Carries place (calls ++ [call]) (notes ++ [(channel.step place call).2])
      (channel.step place call).1 (writings ++ [⟨channel.logs handle, entry, group⟩]) := by
  intro call
  obtain ⟨own, -, hown⟩ := h.readers handle
  obtain ⟨hwritable, capacity, hcapacity⟩ := hown.usable
  have hrow := entry.frames_eq_ok group hsize hcapacity
  have hwrite := Log.write_of_frames hwritable hrow (Frame.fits_of_frames hrow hgroup)
  have hnew : Writing.Succeeds ⟨channel.logs handle, entry, group⟩ := (hwrite []).1
  have hbytes := hnew.write_eq (bytesOf (rowsOf writings))
  have hoff : (channel.disk.content? place).getD [] = bytesOf (rowsOf writings) := by
    rw [h.content, Option.getD_some]
  refine ⟨?_, ?_, ?_, ?_, fun other => ?_⟩
  · -- The row stands behind those that were there.
    simp only [step, call, Log.writeOn, Outcome.mapState, hoff, hbytes.2]
    rw [Store.content?_replaceContent h.content]
    simp [rowsOf, Writing.bytes]
  · intro w hw
    rcases List.mem_append.mp hw with hw | hw
    · exact h.succeed w hw
    · rw [List.mem_singleton.mp hw]
      exact hnew
  · rw [List.map_append, h.sent, sent_concat]
    rfl
  · intro note hnote
    rcases List.mem_append.mp hnote with hnote | hnote
    · exact h.success note hnote
    · rw [List.mem_singleton.mp hnote]
      simp only [step, call, Note.Succeeds, Log.writeOn, Outcome.mapState, hoff, hbytes.1]
  · obtain ⟨seen, hseen, hreader⟩ := h.readers other
    exact ⟨seen, hseen.trans (List.prefix_append _ _), hreader.pass rfl rfl⟩

/-- Reading takes the handle to the end of the rows and gives out the entries on the way. -/
theorem readOn (h : Carries place calls notes channel writings)
    (hdistinct : (writings.map (·.group)).Nodup) {handle : Nat} {seen more : List Writing}
    (hmore : writings = seen ++ more)
    (hreader : Reader handle calls notes (channel.logs handle) seen) :
    (∃ truncated, ((channel.logs handle).readOn channel.disk place).result =
        .ok ⟨more.map (·.entry), truncated⟩) ∧
      ((channel.logs handle).readOn channel.disk place).state =
        { channel.logs handle with
          cursor := Cursor.behind (rowsOf writings) (bytesOf (rowsOf writings)) } := by
  have hrows : rowsOf writings = rowsOf seen ++ rowsOf more := by
    rw [hmore, rowsOf, List.flatMap_append]
    rfl
  have hsucceed := h.succeed
  rw [hmore, List.map_append, List.nodup_append] at hdistinct
  obtain ⟨hseen, hlater, hacross⟩ := hdistinct
  have hfirst : ∀ w ∈ seen, w.Succeeds :=
    fun w hw => hsucceed w (hmore ▸ List.mem_append_left _ hw)
  have hlast : ∀ w ∈ more, w.Succeeds :=
    fun w hw => hsucceed w (hmore ▸ List.mem_append_right _ hw)
  have hcontinues : Continues (rowsOf seen) (rowsOf more) := by
    intro frame hframe hbegun
    have hold := groupIds_rowsOf hfirst hbegun
    have hnew := groupIds_rowsOf hlast (Frame.mem_groupIds.mpr ⟨frame, hframe, rfl⟩)
    exact absurd rfl (hacross _ hold _ hnew)
  have hshows : Shows (bytesOf (rowsOf writings)) (rowsOf seen ++ rowsOf more) :=
    hrows ▸ Frame.shows_bytesOf (fits_rowsOf hsucceed)
  have hhas : (channel.logs handle).cursor.HasRead (rowsOf seen) := by
    rw [hreader.cursor]
    exact Cursor.hasRead_behind _ _
  obtain ⟨⟨truncated, hresult⟩, hstate⟩ :=
    hhas.read_on hshows hcontinues (channel.logs handle).path
  -- Nothing waits behind whole rows, so the new rows are put together by themselves.
  have hgiven : Cursor.given (rowsOf seen) (rowsOf more) = more.map (·.entry) := by
    rw [Cursor.given, Assembly.remaining_rows hfirst hseen, List.nil_append,
      Assembly.found_rows hlast hlater, List.map_map]
    rfl
  rw [hgiven] at hresult
  rw [← hrows] at hstate
  have hread : (channel.logs handle).readOn channel.disk place =
      (channel.logs handle).read (bytesOf (rowsOf writings)) := by
    rw [Log.readOn, Disk.contentAt, h.content]
  rw [hread, Log.read]
  exact ⟨⟨truncated, hresult⟩, congrArg _ hstate⟩

theorem read (h : Carries place calls notes channel writings)
    (hdistinct : (writings.map (·.group)).Nodup) (handle : Nat) :
    Carries place (calls ++ [.read handle]) (notes ++ [(channel.step place (.read handle)).2])
      (channel.step place (.read handle)).1 writings := by
  obtain ⟨own, ⟨more, hmore⟩, hown⟩ := h.readers handle
  obtain ⟨⟨truncated, hresult⟩, hstate⟩ := h.readOn hdistinct hmore.symm hown
  refine ⟨h.content, h.succeed, ?_, ?_, fun other => ?_⟩
  · rw [h.sent, sent_concat]
    exact (List.append_nil _).symm
  · intro note hnote
    rcases List.mem_append.mp hnote with hnote | hnote
    · exact h.success note hnote
    · rw [List.mem_singleton.mp hnote]
      exact ⟨_, hresult⟩
  · by_cases hother : other = handle
    · subst hother
      refine ⟨writings, List.prefix_rfl, ?_⟩
      have hlog : (channel.step place (.read other)).1.logs other =
          ((channel.logs other).readOn channel.disk place).state := Function.update_self ..
      rw [hlog, hstate]
      refine ⟨hown.usable, rfl, ?_, ?_⟩
      · rw [upToRead_concat, if_pos (by simp [Call.readsBy]), sent_concat, h.sent]
        exact (List.append_nil _).symm
      · rw [received_concat, hown.given, ← hmore, List.map_append]
        simp only [step, Note.given, hresult, if_true]
    · obtain ⟨seen, hseen, hreader⟩ := h.readers other
      have hlog : (channel.step place (.read handle)).1.logs other = channel.logs other :=
        Function.update_of_ne hother ..
      rw [hlog]
      refine ⟨seen, hseen, hreader.pass ?_ ?_⟩
      · simpa [Call.readsBy] using Ne.symm hother
      · simp only [step, Note.given, hresult, if_neg (Ne.symm hother)]

/-- A call keeps all that up. -/
theorem step (h : Carries place calls notes channel writings) {call : Call}
    (horderly : Orderly (calls ++ [call])) :
    ∃ writings', Carries place (calls ++ [call]) (notes ++ [(channel.step place call).2])
      (channel.step place call).1 writings' := by
  cases call with
  | write handle entry group =>
    obtain ⟨hsize, hgroup⟩ := horderly.fits (group, entry) (by
      rw [sent_concat]
      exact List.mem_append_right _ (List.mem_singleton_self _))
    exact ⟨_, h.write handle hsize hgroup⟩
  | read handle =>
    have hdistinct := horderly.distinct
    rw [sent_concat, Call.sent?, Option.toList_none, List.append_nil] at hdistinct
    exact ⟨writings, h.read (h.distinct hdistinct) handle⟩

end Carries

theorem Orderly.of_append {calls more : List Call} (h : Orderly (calls ++ more)) :
    Orderly calls := by
  have hsent : sent (calls ++ more) = sent calls ++ sent more := List.filterMap_append ..
  refine ⟨fun item hitem => h.fits item (hsent ▸ List.mem_append_left _ hitem), ?_⟩
  have hdistinct := h.distinct
  rw [hsent, List.map_append] at hdistinct
  exact (List.nodup_append.mp hdistinct).1

/-- Calls, however many, keep all that up. -/
theorem Carries.run {place : Place} {calls more : List Call} {notes : List Note}
    {channel : Channel} {writings : List Writing}
    (h : Carries place calls notes channel writings) (horderly : Orderly (calls ++ more)) :
    ∃ writings', Carries place (calls ++ more) (notes ++ (channel.run place more).2)
      (channel.run place more).1 writings' := by
  induction more generalizing calls notes channel writings with
  | nil =>
    refine ⟨writings, ?_⟩
    simpa [Channel.run] using h
  | cons call rest ih =>
    have hassoc : calls ++ call :: rest = calls ++ [call] ++ rest := List.append_cons ..
    rw [hassoc] at horderly ⊢
    obtain ⟨between, hbetween⟩ := h.step horderly.of_append
    obtain ⟨final, hfinal⟩ := ih hbetween horderly
    refine ⟨final, ?_⟩
    rwa [List.append_assoc notes] at hfinal

/-- A new file and handles that have just been opened on it. -/
theorem carries_start {place : Place} {disk : Disk} {logs : Nat → Log}
    (hopened : ∀ handle, OpenedAt place (logs handle)) (hnew : disk.content? place = some []) :
    Carries place [] [] ⟨disk, logs⟩ [] := by
  refine ⟨hnew, by simp, rfl, by simp, fun handle => ⟨[], List.prefix_rfl, ?_⟩⟩
  obtain ⟨before, made, path, frameSize, hopen⟩ := hopened handle
  obtain ⟨hlog, hframed⟩ := Store.openOn_eq_ok hopen.result
  dsimp only
  rw [hlog]
  exact ⟨⟨rfl, hframed⟩, rfl, rfl, rfl⟩

/-- Every call succeeds, and each handle has been given what had been sent when it read last: each
entry once, in the order of sending, with nothing left over. -/
theorem received_eq_sent {place : Place} {disk : Disk} {logs : Nat → Log} {calls : List Call}
    (hopened : ∀ handle, OpenedAt place (logs handle)) (hnew : disk.content? place = some [])
    (horderly : Orderly calls) :
    let (last, notes) := run place ⟨disk, logs⟩ calls
    (∀ note ∈ notes, note.Succeeds) ∧
      ∀ handle, received handle notes = (sent (upToRead handle calls)).map (·.2) ∧
        (last.logs handle).cursor.pending = [] ∧
        (last.logs handle).cursor.truncatedAt = none := by
  obtain ⟨writings, hcarries⟩ := (carries_start hopened hnew).run horderly
  rw [List.nil_append, List.nil_append] at hcarries
  have hdistinct := hcarries.distinct horderly.distinct
  refine ⟨hcarries.success, fun handle => ?_⟩
  obtain ⟨seen, ⟨more, hmore⟩, hreader⟩ := hcarries.readers handle
  have hseen : (seen.map (·.group)).Nodup := by
    rw [← hmore, List.map_append] at hdistinct
    exact (List.nodup_append.mp hdistinct).1
  have hsucceed : ∀ w ∈ seen, w.Succeeds :=
    fun w hw => hcarries.succeed w (hmore ▸ List.mem_append_left _ hw)
  rw [hreader.given, ← hreader.read, List.map_map, hreader.cursor]
  exact ⟨rfl, Assembly.remaining_rows hsucceed hseen, if_pos rfl⟩

/-- Handles with frame sizes of their own on one file. -/
def mixedLogs (handle : Nat) : Log := .opened "log" (26 + 2 * (handle % 3)) true

/-- Entries that take different numbers of frames, written and read by three handles. -/
def mixedCalls : List Call :=
  [.write 0 ⟨.untyped, [1], [2, 3]⟩ [0xa1], .read 1, .write 1 ⟨.parameters, [4], [5, 6]⟩ [0xa2],
    .read 0, .write 2 ⟨.parameterSet, [7], []⟩ [0xa3], .read 1, .write 1 ⟨.untyped, [], [8]⟩ [0xa4]]

theorem received_eq_sent_mixed :
    (∀ handle, OpenedAt ["log"] (mixedLogs handle)) ∧
      (Log.openOn .empty "log" 26 true).state.content? ["log"] = some [] ∧
      Orderly mixedCalls ∧
      let (last, notes) := run ["log"] ⟨(Log.openOn .empty "log" 26 true).state, mixedLogs⟩
        mixedCalls
      (∀ note ∈ notes, note.Succeeds) ∧
        ∀ handle, received handle notes = (sent (upToRead handle mixedCalls)).map (·.2) ∧
          (last.logs handle).cursor.pending = [] ∧
          (last.logs handle).cursor.truncatedAt = none := by
  have hopened : ∀ handle, OpenedAt ["log"] (mixedLogs handle) := by
    intro handle
    have hless := Nat.mod_lt handle (show 0 < 3 by decide)
    rw [mixedLogs]
    generalize handle % 3 = kind at hless
    match kind, hless with
    | 0, _ => exact ⟨.empty, _, "log", 26, rfl, rfl⟩
    | 1, _ => exact ⟨(Log.openOn .empty "log" 26 true).state, _, "log", 28, rfl, rfl⟩
    | 2, _ => exact ⟨(Log.openOn .empty "log" 26 true).state, _, "log", 30, rfl, rfl⟩
  have horderly : Orderly mixedCalls := ⟨by decide, by decide⟩
  exact ⟨hopened, rfl, horderly, received_eq_sent hopened rfl horderly⟩

end Channel
end ParameterLog
