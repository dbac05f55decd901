/-
Module: ParameterLog.Proofs.SaveRace
Purpose: what holds at any moment while programs save parameters on one log.
Main exports: Parameters.Storable, SharedLog.Fair, SharedLog.Race, SharedLog.Race.step,
  SharedLog.race_start
-/
import ParameterLog.Proofs.CurrentAnswers

/-!
Programs save parameters that have not been saved before, each under an identifier of its own
(`Fair`). They look, append and look again, and nothing keeps another program from appending in
between. What does hold at any moment (`Race`): no record in the log has the identifier of
parameters that are yet to be appended, and the record of a save whose program waits for it is in
the log, the only one with its identifier.
-/

namespace ParameterLog

open ParameterLog.Frame (bytesOf Grown IsStart groupIds)

/-- The parameters can be saved: they have an identifier and a key, and their record is not too
large and can be read back. -/
structure Parameters.Storable (p : Parameters) : Prop where
  named : p.id ≠ []
  keyed : p.action.id ≠ []
  small : (Saving.parameters p).record.size ≤ greatestEntrySize
  readable : Parameters.ofBytes p.toBytes = .ok p.unmarked

namespace Parameters.Storable

variable {p : Parameters}

theorem key_eq (h : p.Storable) : ∃ key, p.key = .ok key := by
  have hkeyed : p.action.id.isEmpty = false := by
    simpa using h.keyed
  exact ⟨_, by rw [key, LookupKey.of, hkeyed, if_neg Bool.false_ne_true]⟩

theorem content_record (h : p.Storable) {key : LookupKey} (hkey : p.key = .ok key) :
    (Saving.parameters p).record.content = .parameters p.unmarked key :=
  Entry.content_parameters h.readable rfl hkey

end Parameters.Storable

/-- A record that is appended under a group of its own is the last of the entries. -/
theorem Assembly.entries_append_frames {frames row : List Frame} {record : Entry} {group : Bytes}
    {frameSize : Nat} (hrow : record.frames group frameSize = .ok row)
    (hfresh : group ∉ groupIds frames) :
    (Assembly.ofFrames (frames ++ row)).entries =
      (Assembly.ofFrames frames).entries ++ [record] := by
  have hdisjoint : ∀ id ∈ groupIds row, id ∉ groupIds frames := by
    intro id hid
    exact Grown.groupIds_row (Frame.isStart_of_frames hrow).1 id hid ▸ hfresh
  rw [entries_ofFrames, found_append_of_disjoint hdisjoint, found_frames hrow, List.map_append,
    ← entries_ofFrames]
  rfl

namespace SharedLog

/-- The parameters whose save a move begins. -/
def Move.saves : Move → List Parameters
  | .check _ (.parameters p) => [p]
  | _ => []

/-- A move of programs that save parameters and ask; only some sites save, and open their stores
for that. -/
def Move.Allowed (writers : Nat → Prop) : Move → Prop
  | .openStore site _ _ _ frameSize writable =>
    (∃ capacity, Frame.capacity frameSize = .ok capacity) ∧ (writers site → writable = true)
  | .check site (.parameters p) => writers site ∧ p.Storable
  | .check _ (.set _) => False
  | .append _ group => group.length ≤ greatestField
  | .confirm _ => True
  | .ask _ _ => True
  | .appendRow _ => False
  | .arrive _ => True

/-- No record in the frames has the identifier. -/
def Unused (frames : List Frame) (id : Bytes) : Prop :=
  ∀ entry ∈ (Assembly.ofFrames frames).entries, entry.id ≠ id

/-- Programs save parameters with identifiers of their own, and append under groups of their
own. -/
structure Fair (writers : Nat → Prop) (frames : List Frame) (moves : List Move) : Prop where
  allowed : ∀ {move}, move ∈ moves → move.Allowed writers
  orderly : Orderly frames moves
  distinct : ((moves.flatMap Move.saves).map (·.id)).Nodup

theorem Fair.tail {writers : Nat → Prop} {frames more : List Frame} {move : Move}
    {rest : List Move} (h : Fair writers frames (move :: rest)) (horderly : Orderly more rest) :
    Fair writers more rest := by
  refine ⟨fun hmem => h.allowed (List.mem_cons_of_mem _ hmem), horderly, ?_⟩
  have hdistinct := h.distinct
  rw [List.flatMap_cons, List.map_append, List.nodup_append] at hdistinct
  exact hdistinct.2.1

/-- A program is in the middle of saving the parameters. -/
def Pending (log : SharedLog) (site : Nat) (p : Parameters) : Prop :=
  ∃ program, log.sites site = some program ∧ program.task.saving? = some (.parameters p)

/-- The record is in the log, whole up to an offset, and no other has its identifier. -/
def Recorded (base frames : List Frame) (p : Parameters) (upTo : Nat) : Prop :=
  (∃ early, base <+: early ∧ early <+: frames ∧ (bytesOf early).length = upTo ∧
    (Saving.parameters p).record ∈ (Assembly.ofFrames early).entries) ∧
  ∀ entry ∈ (Assembly.ofFrames frames).entries, entry.id = p.id →
    entry = (Saving.parameters p).record

section Appending

variable {base frames row : List Frame} {p : Parameters}

/-- An identifier stays unused when another record is appended. -/
theorem Unused.append {id : Bytes} (h : Unused frames id)
    (hentries : (Assembly.ofFrames (frames ++ row)).entries =
      (Assembly.ofFrames frames).entries ++ [(Saving.parameters p).record])
    (hne : p.id ≠ id) : Unused (frames ++ row) id := by
  intro entry hentry
  rw [hentries, List.mem_append, List.mem_singleton] at hentry
  rcases hentry with hentry | rfl
  · exact h entry hentry
  · exact hne

/-- A record stays the only one with its identifier when another is appended. -/
theorem Recorded.append {q : Parameters} {upTo : Nat} (h : Recorded base frames q upTo)
    (hentries : (Assembly.ofFrames (frames ++ row)).entries =
      (Assembly.ofFrames frames).entries ++ [(Saving.parameters p).record])
    (hne : p.id ≠ q.id) : Recorded base (frames ++ row) q upTo := by
  obtain ⟨⟨early, hbase, hearly, hlength, hmem⟩, hsole⟩ := h
  refine ⟨⟨early, hbase, hearly.trans (List.prefix_append _ _), hlength, hmem⟩, ?_⟩
  intro entry hentry hid
  rw [hentries, List.mem_append, List.mem_singleton] at hentry
  rcases hentry with hentry | rfl
  · exact hsole entry hentry hid
  · exact absurd hid hne

/-- A record that is appended is the only one with its identifier if there was none. -/
theorem recorded_append
    (hentries : (Assembly.ofFrames (frames ++ row)).entries =
      (Assembly.ofFrames frames).entries ++ [(Saving.parameters p).record])
    (hunused : Unused frames p.id) (hbase : base <+: frames ++ row) :
    Recorded base (frames ++ row) p (bytesOf (frames ++ row)).length := by
  refine ⟨⟨frames ++ row, hbase, List.prefix_rfl, rfl, ?_⟩, ?_⟩
  · rw [hentries]
    exact List.mem_append_right _ (List.mem_singleton_self _)
  · intro entry hentry hid
    rw [hentries, List.mem_append, List.mem_singleton] at hentry
    rcases hentry with hentry | rfl
    · exact absurd hid (hunused entry hentry)
    · rfl

end Appending

/-- What is known of a program in the race. -/
structure Runner (writers : Nat → Prop) (base frames : List Frame) (site : Nat)
    (program : Site) : Prop where
  bounded : ∃ capacity, Frame.capacity program.store.log.frameSize = .ok capacity
  writable : writers site → program.store.log.writable = true
  busy : ∀ {saving}, program.task.saving? = some saving →
    writers site ∧ ∃ p, saving = .parameters p ∧ p.Storable
  placed : ∀ {p}, program.task = .placed (.parameters p) → Unused frames p.id
  written : ∀ {p upTo}, program.task = .written (.parameters p) upTo →
    Recorded base frames p upTo

/-- What is known of a log on which programs save parameters, while some saves are yet to
begin. -/
structure Race (writers : Nat → Prop) (base frames : List Frame) (log : SharedLog)
    (ahead : List Parameters) : Prop where
  holds : log.Holds base frames
  runners : ∀ {site program}, log.sites site = some program →
    Runner writers base frames site program
  alone : ∀ {site other p q}, log.Pending site p → log.Pending other q → p.id = q.id →
    site = other
  begun : ∀ {site p q}, log.Pending site p → q ∈ ahead → p.id ≠ q.id
  unused : ∀ p ∈ ahead, Unused frames p.id

variable {writers : Nat → Prop} {base frames : List Frame}

/-- A program without a save in progress. -/
theorem runner_of_idle {site : Nat} {store : FileStore}
    (hbounded : ∃ capacity, Frame.capacity store.log.frameSize = .ok capacity)
    (hwritable : writers site → store.log.writable = true) :
    Runner writers base frames site ⟨store, .idle⟩ := by
  refine ⟨hbounded, hwritable, fun hsaving => ?_, fun htask => ?_, fun htask => ?_⟩
  · simp [Task.saving?] at hsaving
  · simp at htask
  · simp at htask

theorem runner_idle {site : Nat} {store : FileStore} {program : Site}
    (h : Runner writers base frames site program)
    (hsettings : store.settings = program.store.settings) :
    Runner writers base frames site ⟨store, .idle⟩ := by
  simp only [FileStore.settings, Prod.mk.injEq] at hsettings
  obtain ⟨-, -, -, hframeSize, hwritable⟩ := hsettings
  refine runner_of_idle ?_ ?_
  · rw [hframeSize]
    exact h.bounded
  · rw [hwritable]
    exact h.writable

/-- A program that has found a place for parameters. -/
theorem runner_placed {site : Nat} {store : FileStore} {p : Parameters}
    (h : Runner writers base frames site ⟨store, .idle⟩) (hwriter : writers site)
    (hp : p.Storable) (hunused : Unused frames p.id) :
    Runner writers base frames site ⟨store, .placed (.parameters p)⟩ := by
  refine ⟨h.bounded, h.writable, fun hsaving => ?_, fun htask => ?_, fun htask => ?_⟩
  · simp only [Task.saving?, Option.some.injEq] at hsaving
    exact ⟨hwriter, p, hsaving.symm, hp⟩
  · simp only [Task.placed.injEq, Saving.parameters.injEq] at htask
    exact htask ▸ hunused
  · simp at htask

theorem pending_place {log : SharedLog} {site other : Nat} {program : Site} {p : Parameters}
    (h : (log.place site program).Pending other p) :
    (other = site ∧ program.task.saving? = some (.parameters p)) ∨
      (other ≠ site ∧ log.Pending other p) := by
  obtain ⟨found, hfound, hsaving⟩ := h
  rcases sites_place_cases hfound with ⟨heq, rfl⟩ | ⟨hne, hold⟩
  · exact .inl ⟨heq, hsaving⟩
  · exact .inr ⟨hne, found, hold, hsaving⟩

/-- A program that begins no save leaves those in progress that there were. -/
theorem pending_of_place {log : SharedLog} {site other : Nat} {program : Site} {p : Parameters}
    (hsame : ∀ {p}, program.task.saving? = some (.parameters p) → log.Pending site p)
    (h : (log.place site program).Pending other p) : log.Pending other p := by
  rcases pending_place h with ⟨rfl, hsaving⟩ | ⟨-, hold⟩
  · exact hsame hsaving
  · exact hold

theorem pending_place_idle {log : SharedLog} {site other : Nat} {store : FileStore}
    {p : Parameters} (h : (log.place site ⟨store, .idle⟩).Pending other p) :
    log.Pending other p :=
  pending_of_place (fun hsaving => by simp [Task.saving?] at hsaving) h

namespace Race

variable {log : SharedLog} {ahead : List Parameters}

/-- Saves that never begin do no harm. -/
theorem fewer {less : List Parameters} (h : Race writers base frames log ahead)
    (hless : ∀ p ∈ less, p ∈ ahead) : Race writers base frames log less :=
  ⟨h.holds, h.runners, h.alone, fun hpending hq => h.begun hpending (hless _ hq),
    fun p hp => h.unused p (hless p hp)⟩

/-- A program that is put in a site with no new save. -/
theorem place (h : Race writers base frames log ahead) {site : Nat} {program : Site}
    (hknows : program.store.Knows base (log.shown frames))
    (hrunner : Runner writers base frames site program)
    (hsame : ∀ {p}, program.task.saving? = some (.parameters p) → log.Pending site p) :
    Race writers base frames (log.place site program) ahead := by
  have hbefore : ∀ {other p}, (log.place site program).Pending other p → log.Pending other p :=
    fun hpending => pending_of_place hsame hpending
  refine ⟨h.holds.place site hknows, fun {other found} hfound => ?_,
    fun hp hq hid => h.alone (hbefore hp) (hbefore hq) hid,
    fun hp hq => h.begun (hbefore hp) hq, h.unused⟩
  rcases sites_place_cases hfound with ⟨rfl, rfl⟩ | ⟨-, hold⟩
  · exact hrunner
  · exact h.runners hold

/-- A program whose save has come to an end, or that was replaced. -/
theorem place_idle (h : Race writers base frames log ahead) {site : Nat} {store : FileStore}
    (hknows : store.Knows base (log.shown frames))
    (hrunner : Runner writers base frames site ⟨store, .idle⟩) :
    Race writers base frames (log.place site ⟨store, .idle⟩) ahead :=
  h.place hknows hrunner fun hsaving => by simp [Task.saving?] at hsaving

/-- A program that has found a place begins a save. -/
theorem place_begun {p : Parameters} (h : Race writers base frames log (p :: ahead))
    (hdistinct : ((p :: ahead).map (·.id)).Nodup) {site : Nat} {store : FileStore}
    (hknows : store.Knows base (log.shown frames))
    (hrunner : Runner writers base frames site ⟨store, .placed (.parameters p)⟩) :
    Race writers base frames (log.place site ⟨store, .placed (.parameters p)⟩) ahead := by
  have hnew : ∀ {other q}, log.Pending other q → q.id ≠ p.id :=
    fun hpending => h.begun hpending List.mem_cons_self
  refine ⟨h.holds.place site hknows, fun {other found} hfound => ?_, ?_, ?_,
    fun q hq => h.unused q (List.mem_cons_of_mem _ hq)⟩
  · rcases sites_place_cases hfound with ⟨rfl, rfl⟩ | ⟨-, hold⟩
    · exact hrunner
    · exact h.runners hold
  · intro one other q r hq hr hid
    rcases pending_place hq with ⟨rfl, hsaving⟩ | ⟨-, hold⟩
    · rcases pending_place hr with ⟨rfl, -⟩ | ⟨-, hold'⟩
      · rfl
      · simp only [Task.saving?, Option.some.injEq, Saving.parameters.injEq] at hsaving
        subst hsaving
        exact absurd hid.symm (hnew hold')
    · rcases pending_place hr with ⟨rfl, hsaving⟩ | ⟨-, hold'⟩
      · simp only [Task.saving?, Option.some.injEq, Saving.parameters.injEq] at hsaving
        subst hsaving
        exact absurd hid (hnew hold)
      · exact h.alone hold hold' hid
  · intro other q r hq hr
    rcases pending_place hq with ⟨rfl, hsaving⟩ | ⟨-, hold⟩
    · simp only [Task.saving?, Option.some.injEq, Saving.parameters.injEq] at hsaving
      subst hsaving
      intro hid
      have hmem : r.id ∈ ahead.map (·.id) := List.mem_map_of_mem hr
      rw [← hid] at hmem
      exact (List.nodup_cons.mp hdistinct).1 hmem
    · exact h.begun hold (List.mem_cons_of_mem _ hr)

/-- The record of a save is appended. -/
theorem append (h : Race writers base frames log ahead) {site : Nat} {store : FileStore}
    {p : Parameters} {group : Bytes} {row : List Frame}
    (ready : log.sites site = some ⟨store, .placed (.parameters p)⟩) (quiet : log.arriving = [])
    (split : (Saving.parameters p).record.frames group store.log.frameSize = .ok row)
    (fits : ∀ frame ∈ row, frame.Fits) (fresh : group ∉ groupIds frames) :
    Race writers base (frames ++ row)
      ({ log with arriving := bytesOf row }.place site
        ⟨store, .written (.parameters p) (log.content ++ bytesOf row).length⟩) ahead := by
  have hpending : log.Pending site p := ⟨_, ready, rfl⟩
  have hentries := Assembly.entries_append_frames split fresh
  have hholds := h.holds.append quiet (Frame.isStart_of_frames split).1 fits fresh
  have hknows : store.Knows base _ := hholds.stores ready
  have hrecorded := recorded_append hentries ((h.runners ready).placed rfl) hholds.grown.base_prefix
  have hbytes := h.holds.bytes
  rw [quiet, List.append_nil] at hbytes
  rw [Frame.bytesOf_append, ← hbytes] at hrecorded
  have hbefore : ∀ {other q}, ({ log with arriving := bytesOf row }.place site
      ⟨store, .written (.parameters p) (log.content ++ bytesOf row).length⟩).Pending other q →
      log.Pending other q := by
    intro other q hq
    have hplaced : (log.place site
        ⟨store, .written (.parameters p) (log.content ++ bytesOf row).length⟩).Pending other q := hq
    refine pending_of_place ?_ hplaced
    exact fun hsaving => ⟨_, ready, hsaving⟩
  refine ⟨hholds.place site hknows, fun {other found} hfound => ?_,
    fun hq hr hid => h.alone (hbefore hq) (hbefore hr) hid,
    fun hq hr => h.begun (hbefore hq) hr,
    fun q hq => (h.unused q hq).append hentries (h.begun hpending hq)⟩
  rcases sites_place_cases hfound with ⟨rfl, rfl⟩ | ⟨hne, hold⟩
  · have hrunner := h.runners ready
    refine ⟨hrunner.bounded, hrunner.writable, fun hsaving => hrunner.busy hsaving, ?_, ?_⟩
    · intro q htask
      simp at htask
    · intro q upTo htask
      simp only [Task.written.injEq, Saving.parameters.injEq] at htask
      obtain ⟨rfl, rfl⟩ := htask
      exact hrecorded
  · -- The record has an identifier that no other program uses.
    have hrunner := h.runners hold
    have hother : ∀ {q}, found.task.saving? = some (.parameters q) → p.id ≠ q.id :=
      fun hsaving hid => hne (h.alone hpending ⟨found, hold, hsaving⟩ hid).symm
    refine ⟨hrunner.bounded, hrunner.writable, hrunner.busy, ?_, ?_⟩
    · intro q htask
      exact (hrunner.placed htask).append hentries (hother (by rw [htask]; rfl))
    · intro q upTo htask
      exact (hrunner.written htask).append hentries (hother (by rw [htask]; rfl))

theorem arrive (h : Race writers base frames log ahead) (count : Nat) :
    Race writers base frames
      { log with
        content := log.content ++ log.arriving.take count
        arriving := log.arriving.drop count } ahead :=
  ⟨h.holds.arrive count, h.runners, h.alone, h.begun, h.unused⟩

/-- A move keeps what is known of a log on which programs save. -/
theorem step {move : Move} {rest : List Move} (hmoves : Fair writers frames (move :: rest))
    (h : Race writers base frames log ((move :: rest).flatMap Move.saves)) :
    ∃ row, Race writers base (frames ++ row) (log.step move).1 (rest.flatMap Move.saves) ∧
      Fair writers (frames ++ row) rest := by
  have hallowed := hmoves.allowed List.mem_cons_self
  rw [List.flatMap_cons] at h
  have hfewer := h.fewer fun p hp => List.mem_append_right move.saves hp
  have hkeep {after : SharedLog} (hafter : Race writers base frames after
      (rest.flatMap Move.saves)) : ∃ row, Race writers base (frames ++ row) after
        (rest.flatMap Move.saves) ∧ Fair writers (frames ++ row) rest :=
    ⟨[], by rwa [List.append_nil], hmoves.tail (by rw [List.append_nil]; exact hmoves.orderly.same)⟩
  have heffect := log.effect_step move
  generalize (log.step move).1 = after, (log.step move).2 = notes at heffect ⊢
  cases heffect with
  | none => exact hkeep hfewer
  | refused => exact hkeep hfewer
  | @opened site id config path frameSize writable capacity bounded =>
    obtain ⟨-, hknows, hsettings⟩ := h.holds.load id config path frameSize writable
    simp only [FileStore.settings, Prod.mk.injEq] at hsettings
    obtain ⟨-, -, -, hframeSize, hwritable⟩ := hsettings
    refine hkeep (hfewer.place_idle hknows (runner_of_idle ?_ ?_))
    · rw [hframeSize]
      exact ⟨capacity, bounded⟩
    · rw [hwritable]
      exact hallowed.2
  | @checked site store saving ready result =>
    cases saving with
    | set s => exact hallowed.elim
    | parameters p =>
      obtain ⟨hknows, hsettings⟩ := h.holds.reconciled ready
        (Saving.state_check (.parameters p) log.content store)
      have hidle := runner_idle (h.runners ready) hsettings
      have hunused : Unused frames p.id := h.unused p (by simp [Move.saves])
      have hdistinct := hmoves.distinct
      rw [List.flatMap_cons] at hdistinct
      exact hkeep (h.place_begun hdistinct hknows
        (runner_placed hidle hallowed.1 hallowed.2 hunused))
  | @turnedAway site store saving ready result =>
    obtain ⟨hknows, hsettings⟩ := h.holds.reconciled ready (saving.state_check log.content store)
    exact hkeep (hfewer.place_idle hknows (runner_idle (h.runners ready) hsettings))
  | @appended site store saving group row ready quiet split fits =>
    have hfresh : group ∉ groupIds frames := hmoves.orderly.fresh (by simp [Move.groups])
    obtain ⟨-, p, rfl, -⟩ := (h.runners ready).busy rfl
    refine ⟨row, hfewer.append ready quiet split fits hfresh,
      hmoves.tail (hmoves.orderly.tail row fun id hid => ?_)⟩
    simpa [Move.groups] using Grown.groupIds_row (Frame.isStart_of_frames split).1 id hid
  | @failed site store saving group e ready result =>
    have hknows : store.Knows base _ := h.holds.stores ready
    exact hkeep (hfewer.place_idle hknows (runner_idle (h.runners ready) rfl))
  | @confirmed site store saving upTo ready there =>
    obtain ⟨hknows, hsettings⟩ := h.holds.reconciled ready (saving.state_confirm log.content store)
    exact hkeep (hfewer.place_idle hknows (runner_idle (h.runners ready) hsettings))
  | @asked site program query ready =>
    obtain ⟨hknows, hsettings⟩ := h.holds.reconciled ready
      (FileStore.state_ask query log.content program.store)
    have hrunner := h.runners ready
    have hidle := runner_idle hrunner hsettings
    exact hkeep (hfewer.place hknows
      ⟨hidle.bounded, hidle.writable, hrunner.busy, hrunner.placed, hrunner.written⟩
      fun hsaving => ⟨program, ready, hsaving⟩)
  | appendedRow row quiet => exact hallowed.elim
  | arrived count => exact hkeep (hfewer.arrive count)

end Race

theorem race_start {base : List Frame} {ahead : List Parameters}
    (hbase : ∀ frame ∈ base, frame.Fits) (hunused : ∀ p ∈ ahead, Unused base p.id) :
    Race writers base base (start base) ahead := by
  refine ⟨holds_start hbase, fun hprogram => ?_, fun hpending => ?_, fun hpending => ?_, hunused⟩
  · simp [start] at hprogram
  · obtain ⟨program, hprogram, -⟩ := hpending
    simp [start] at hprogram
  · obtain ⟨program, hprogram, -⟩ := hpending
    simp [start] at hprogram

end SharedLog
end ParameterLog
