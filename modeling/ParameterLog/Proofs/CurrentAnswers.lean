/-
Module: ParameterLog.Proofs.CurrentAnswers
Purpose: stores that read now and then answer like a store that has read everything.
Main exports: FileStore.Knows, SharedLog.Holds, SharedLog.Orderly, SharedLog.Holds.step,
  SharedLog.Holds.run, SharedLog.answers_current
-/
import ParameterLog.Proofs.SharedLog

/-!
Programs work on a log that holds anything at first and then grows by rows of frames appended in one
piece, each under a group of its own (`Orderly`). Whatever they do, short of deleting, the log is
made of whole frames with at most the newest row on its way, and each store has taken in just what a
reader of some part of it would find (`Holds`). As that part and what is added later are found in
turn, and an answer once given stays, a store answers any question as one would that is opened at
that moment (`answers_current`), even where it does not look at the log.
-/

namespace ParameterLog

open ParameterLog.Frame (bytesOf Grown Shows Continues IsStart groupIds whole)

/-- The store has taken in what some part of the frames shown holds, and at least what stood in the
log at first. -/
def FileStore.Knows (store : FileStore) (base shown : List Frame) : Prop :=
  ∃ frames, base <+: frames ∧ frames <+: shown ∧
    store.HasTaken frames (Assembly.ofFrames frames).entries

namespace FileStore

variable {store : FileStore} {base frames shown : List Frame} {content : Bytes}

theorem Knows.mono {more : List Frame} (h : store.Knows base shown) (hmore : shown <+: more) :
    store.Knows base more := by
  obtain ⟨frames, hbase, hshown, htaken⟩ := h
  exact ⟨frames, hbase, hshown.trans hmore, htaken⟩

/-- In a log that has grown in order, what a store has taken in and what it has not make up what
is found in the whole. -/
theorem Knows.split (h : store.Knows base shown) (hgrown : Grown base frames)
    (hshown : shown <+: frames) :
    ∃ xs ys, shown = xs ++ ys ∧ store.HasTaken xs (Assembly.ofFrames xs).entries ∧
      Continues xs ys ∧
      (Assembly.ofFrames xs).entries ++ Cursor.given xs ys = (Assembly.ofFrames shown).entries := by
  obtain ⟨xs, hbase, ⟨ys, rfl⟩, htaken⟩ := h
  obtain ⟨zs, rfl⟩ := hshown
  obtain ⟨hcontinues, hfound⟩ := hgrown.found_eq rfl hbase.length_le
  refine ⟨xs, ys, rfl, htaken, hcontinues, ?_⟩
  rw [Assembly.entries_ofFrames, Assembly.entries_ofFrames, hfound, List.map_append, Cursor.given]

/-- Reconciling brings a store up to what is shown. -/
theorem Knows.reconcile (h : store.Knows base shown) (hgrown : Grown base frames)
    (hshown : shown <+: frames) (hshows : Shows content shown) :
    (store.reconcile content).result = .ok () ∧
      (store.reconcile content).state.HasTaken shown (Assembly.ofFrames shown).entries ∧
      (store.reconcile content).state.settings = store.settings := by
  obtain ⟨xs, ys, rfl, htaken, hcontinues, hentries⟩ := h.split hgrown hshown
  obtain ⟨hresult, hafter, hsettings⟩ := htaken.reconcile hshows hcontinues
  rw [hentries] at hafter
  exact ⟨hresult, hafter, hsettings⟩

/-- A store answers as the catalog of all that is shown does. -/
theorem Knows.ask (h : store.Knows base shown) (hgrown : Grown base frames)
    (hshown : shown <+: frames) (hshows : Shows content shown) (query : Query) :
    (store.ask query content).result =
      (((Catalog.new []).after (Assembly.ofFrames shown).entries).answer query).map
        (·.stamp store.id) := by
  obtain ⟨xs, ys, rfl, htaken, hcontinues, hentries⟩ := h.split hgrown hshown
  rw [htaken.ask hshows hcontinues query, hentries, Catalog.answer_after_new]

/-- What knows the log still does if it is reconciled. -/
theorem Knows.of_reconcile {after : FileStore} (h : store.Knows base shown)
    (hgrown : Grown base frames) (hshown : shown <+: frames) (hshows : Shows content shown)
    (hafter : after = store ∨ after = (store.reconcile content).state) :
    after.Knows base shown ∧ after.settings = store.settings := by
  rcases hafter with rfl | rfl
  · exact ⟨h, rfl⟩
  · obtain ⟨-, htaken, hsettings⟩ := h.reconcile hgrown hshown hshows
    obtain ⟨xs, hbase, hxs, -⟩ := h
    exact ⟨⟨shown, hbase.trans hxs, List.prefix_rfl, htaken⟩, hsettings⟩

end FileStore

/-- The steps of a save do no more to a store than to reconcile it. -/
theorem Saving.state_check (saving : Saving) (content : Bytes) (store : FileStore) :
    (saving.check content store).state = store ∨
      (saving.check content store).state = (store.reconcile content).state := by
  cases saving with
  | parameters p => exact FileStore.state_check p content store
  | set s => exact .inr (FileStore.state_checkSet s content store)

theorem Saving.state_confirm (saving : Saving) (content : Bytes) (store : FileStore) :
    (saving.confirm content store).state = store ∨
      (saving.confirm content store).state = (store.reconcile content).state := by
  cases saving with
  | parameters p => exact FileStore.state_confirm p content store
  | set s => exact .inr (FileStore.state_confirmSet s content store)

/-- The frames of an entry under a group in a log with frames of 64 bytes. -/
def Entry.row (entry : Entry) (group : Bytes) : List Frame :=
  let pieces := entry.toBytes.pieces 39
  Frame.numbered group pieces.length pieces

theorem Entry.frames_row {entry : Entry} (h : entry.size ≤ greatestEntrySize) (group : Bytes) :
    entry.frames group 64 = .ok (entry.row group) := Entry.frames_eq_ok group h rfl

/-- A catalog that takes the record of the parameters in as its first one. -/
theorem Catalog.hold_sample_one {key : LookupKey} (hkey : (Parameters.sample 1).key = .ok key) :
    (Catalog.new []).hold (Saving.parameters (.sample 1)).record.content =
      (Catalog.new []).insert key (.sample 1) := by
  have hcontent : (Saving.parameters (.sample 1)).record.content = .parameters (.sample 1) key :=
    Entry.content_parameters Parameters.readable_sample_one rfl hkey
  have hroom : (Catalog.new []).hasRoom (Parameters.sample 1).id key = true := rfl
  rw [hcontent, Catalog.hold, if_pos hroom]

namespace SharedLog

/-- The frames that readers see of those that have been appended. -/
def shown (log : SharedLog) (frames : List Frame) : List Frame := whole log.content.length frames

/-- The frames have been appended to the log, and the stores know what they have read of them. -/
structure Holds (log : SharedLog) (base frames : List Frame) : Prop where
  grown : Grown base frames
  fits : ∀ frame ∈ frames, frame.Fits
  bytes : log.content ++ log.arriving = bytesOf frames
  begun : (bytesOf base).length ≤ log.content.length
  stores : ∀ {site program}, log.sites site = some program →
    program.store.Knows base (log.shown frames)

namespace Holds

variable {log : SharedLog} {base frames : List Frame}

theorem shown_initial (log : SharedLog) (frames : List Frame) : log.shown frames <+: frames :=
  Frame.whole_initial _ _

theorem shows (h : log.Holds base frames) : Shows log.content (log.shown frames) := by
  have htake : log.content = (bytesOf frames).take log.content.length := by
    rw [← h.bytes, List.take_left]
  have hshows := Frame.shows_take h.fits log.content.length
  rw [← htake] at hshows
  exact hshows

theorem base_prefix (h : log.Holds base frames) : base <+: log.shown frames := by
  obtain ⟨later, rfl⟩ := h.grown.base_prefix
  rw [shown, Frame.whole_append h.begun]
  exact List.prefix_append _ _

/-- All frames are shown when nothing is on its way. -/
theorem shown_of_quiet (h : log.Holds base frames) (hquiet : log.arriving = [])
    (row : List Frame) : log.shown (frames ++ row) = frames := by
  have hbytes := h.bytes
  rw [hquiet, List.append_nil] at hbytes
  rw [shown, hbytes, Frame.whole_length]

/-- A store that has just been opened knows the log. -/
theorem load (h : log.Holds base frames) (id : StoreId) (config : Json.Members) (path : String)
    (frameSize : Nat) (writable : Bool) :
    let loaded := FileStore.load id config (.opened path frameSize writable) log.content
    loaded.result = .ok () ∧ loaded.state.Knows base (log.shown frames) ∧
      loaded.state.settings = (id, config, path, frameSize, writable) := by
  obtain ⟨hresult, htaken, hsettings⟩ :=
    FileStore.load_opened h.shows id config path frameSize writable
  rw [← Assembly.entries_ofFrames] at htaken
  exact ⟨hresult, ⟨_, h.base_prefix, List.prefix_rfl, htaken⟩, hsettings⟩

/-- What a store of the log comes to when it does no more than reconcile. -/
theorem reconciled (h : log.Holds base frames) {site : Nat} {program : Site}
    (hprogram : log.sites site = some program) {after : FileStore}
    (hafter : after = program.store ∨ after = (program.store.reconcile log.content).state) :
    after.Knows base (log.shown frames) ∧ after.settings = program.store.settings :=
  (h.stores hprogram).of_reconcile h.grown (shown_initial log frames) h.shows hafter

/-- What the stores answer. -/
theorem ask (h : log.Holds base frames) {store : FileStore}
    (hknows : store.Knows base (log.shown frames)) (query : Query) :
    (store.ask query log.content).result =
      (((Catalog.new []).after (Assembly.ofFrames (log.shown frames)).entries).answer query).map
        (·.stamp store.id) :=
  hknows.ask h.grown (shown_initial log frames) h.shows query

theorem place (h : log.Holds base frames) (site : Nat) {program : Site}
    (hprogram : program.store.Knows base (log.shown frames)) :
    (log.place site program).Holds base frames := by
  refine ⟨h.grown, h.fits, h.bytes, h.begun, fun {other found} hfound => ?_⟩
  rcases sites_place_cases hfound with ⟨rfl, rfl⟩ | ⟨-, hold⟩
  · exact hprogram
  · exact h.stores hold

/-- A row that is appended in one piece is on its way. -/
theorem append (h : log.Holds base frames) (hquiet : log.arriving = []) {group : Bytes}
    {row : List Frame} (hstart : IsStart group row) (hfits : ∀ frame ∈ row, frame.Fits)
    (hfresh : group ∉ groupIds frames) :
    { log with arriving := bytesOf row }.Holds base (frames ++ row) := by
  have hbytes := h.bytes
  rw [hquiet, List.append_nil] at hbytes
  have hall := h.shown_of_quiet hquiet []
  rw [List.append_nil] at hall
  have hsame : log.shown (frames ++ row) = log.shown frames := by
    rw [h.shown_of_quiet hquiet, hall]
  refine ⟨h.grown.append hstart hfresh, ?_, ?_, h.begun, fun {site program} hprogram => ?_⟩
  · intro frame hframe
    rcases List.mem_append.mp hframe with hframe | hframe
    · exact h.fits frame hframe
    · exact hfits frame hframe
  · simp [hbytes]
  · have hknows := h.stores hprogram
    rw [← hsame] at hknows
    exact hknows

theorem arrive (h : log.Holds base frames) (count : Nat) :
    { log with
      content := log.content ++ log.arriving.take count
      arriving := log.arriving.drop count }.Holds base frames := by
  have hlonger : log.content.length ≤ (log.content ++ log.arriving.take count).length := by
    simp
  refine ⟨h.grown, h.fits, ?_, Nat.le_trans h.begun hlonger, fun {site program} hprogram => ?_⟩
  · rw [List.append_assoc, List.take_append_drop]
    exact h.bytes
  · exact (h.stores hprogram).mono (Frame.whole_mono hlonger frames)

end Holds

/-! ### Moves -/

/-- The groups under which a move appends. -/
def Move.groups : Move → List Bytes
  | .append _ group => [group]
  | .appendRow row => groupIds row
  | _ => []

/-- What is appended to a log that holds frames is the start of an entry, in one piece and under a
group of its own; stores cut entries like that by themselves. -/
structure Orderly (frames : List Frame) (moves : List Move) : Prop where
  rows : ∀ {row}, .appendRow row ∈ moves →
    (∃ group, IsStart group row) ∧ ∀ frame ∈ row, frame.Fits
  distinct : (moves.flatMap Move.groups).Nodup
  fresh : ∀ {group}, group ∈ moves.flatMap Move.groups → group ∉ groupIds frames

/-- What the rest of the moves find after a move has added frames. -/
theorem Orderly.tail {frames : List Frame} {move : Move} {rest : List Move}
    (h : Orderly frames (move :: rest)) (row : List Frame)
    (hrow : ∀ id ∈ groupIds row, id ∈ move.groups) : Orderly (frames ++ row) rest := by
  have hdistinct := h.distinct
  rw [List.flatMap_cons, List.nodup_append] at hdistinct
  refine ⟨fun hmem => h.rows (List.mem_cons_of_mem _ hmem), hdistinct.2.1,
    fun {group} hgroup hmem => ?_⟩
  rw [Frame.groupIds_append, List.mem_append] at hmem
  rcases hmem with hmem | hmem
  · refine h.fresh ?_ hmem
    rw [List.flatMap_cons]
    exact List.mem_append_right _ hgroup
  · obtain ⟨frame, hframe, rfl⟩ := Frame.mem_groupIds.mp hmem
    have hadded := hrow _ (Frame.mem_groupIds.mpr ⟨frame, (List.mem_filter.mp hframe).1, rfl⟩)
    exact hdistinct.2.2 _ hadded _ hgroup rfl

theorem Orderly.same {frames : List Frame} {move : Move} {rest : List Move}
    (h : Orderly frames (move :: rest)) : Orderly frames rest := by
  have htail := h.tail [] (by simp [groupIds])
  rwa [List.append_nil] at htail

/-- A move keeps what holds of a log. -/
theorem Holds.step {log : SharedLog} {base frames : List Frame} {move : Move} {rest : List Move}
    (h : log.Holds base frames) (hmoves : Orderly frames (move :: rest)) :
    ∃ row, (log.step move).1.Holds base (frames ++ row) ∧ Orderly (frames ++ row) rest := by
  have hkeep {after : SharedLog} (hafter : after.Holds base frames) :
      ∃ row, after.Holds base (frames ++ row) ∧ Orderly (frames ++ row) rest :=
    ⟨[], by rwa [List.append_nil], by rw [List.append_nil]; exact hmoves.same⟩
  have heffect := log.effect_step move
  generalize (log.step move).1 = after, (log.step move).2 = notes at heffect ⊢
  cases heffect with
  | none => exact hkeep h
  | refused => exact hkeep h
  | opened site id config path writable bounded =>
    exact hkeep (h.place site (h.load id config path _ writable).2.1)
  | checked saving ready result =>
    exact hkeep (h.place _ (h.reconciled ready (saving.state_check ..)).1)
  | turnedAway saving ready result =>
    exact hkeep (h.place _ (h.reconciled ready (saving.state_check ..)).1)
  | @appended site store saving group row ready quiet split fits =>
    obtain ⟨hstart, hne⟩ := Frame.isStart_of_frames split
    have hfresh : group ∉ groupIds frames := hmoves.fresh (by simp [Move.groups])
    have happended := h.append quiet hstart fits hfresh
    have hknows : store.Knows base _ := happended.stores ready
    refine ⟨row, happended.place site hknows, hmoves.tail row fun id hid => ?_⟩
    simpa [Move.groups] using Grown.groupIds_row hstart id hid
  | @failed site store saving group e ready result =>
    have hknows : store.Knows base _ := h.stores ready
    exact hkeep (h.place site hknows)
  | @confirmed site store saving upTo ready there =>
    exact hkeep (h.place _ (h.reconciled ready (saving.state_confirm ..)).1)
  | asked query ready =>
    exact hkeep (h.place _ (h.reconciled ready (FileStore.state_ask ..)).1)
  | appendedRow row quiet =>
    obtain ⟨⟨group, hstart⟩, hfits⟩ := hmoves.rows List.mem_cons_self
    have htail := hmoves.tail row fun id hid => hid
    by_cases hempty : row = []
    · subst hempty
      have hsame : { log with arriving := bytesOf [] } = log := by
        rw [Frame.bytesOf_nil, ← quiet]
      rw [hsame]
      exact hkeep h
    · have hone := Frame.groupIds_of_group hempty hstart.group_eq
      have hfresh : group ∉ groupIds frames := hmoves.fresh (by simp [Move.groups, hone])
      exact ⟨row, h.append quiet hstart hfits hfresh, htail⟩
  | arrived count => exact hkeep (h.arrive count)

/-- Any moves keep what holds of a log. -/
theorem Holds.run {log : SharedLog} {base frames : List Frame} {moves : List Move}
    (h : log.Holds base frames) (hmoves : Orderly frames moves) :
    ∃ more, (log.run moves).1.Holds base (frames ++ more) := by
  induction moves generalizing log frames with
  | nil => exact ⟨[], by rwa [List.append_nil]⟩
  | cons move rest ih =>
    obtain ⟨row, hstep, hrest⟩ := h.step hmoves
    obtain ⟨more, hrun⟩ := ih hstep hrest
    refine ⟨row ++ more, ?_⟩
    rw [List.append_assoc] at hrun
    exact hrun

theorem holds_start {base : List Frame} (h : ∀ frame ∈ base, frame.Fits) :
    (start base).Holds base base := by
  refine ⟨.base, h, by simp [start], Nat.le_refl _, fun hprogram => ?_⟩
  simp [start] at hprogram

/-- Whatever programs have done to a log, every store answers like one that is opened at that
moment. -/
theorem answers_current {base : List Frame} {moves : List Move}
    (hbase : ∀ frame ∈ base, frame.Fits) (hmoves : Orderly base moves) {site : Nat}
    {program : Site} (hprogram : ((start base).run moves).1.sites site = some program)
    (query : Query) (id : StoreId) (config : Json.Members) (path : String) (frameSize : Nat)
    (writable : Bool) :
    let content := ((start base).run moves).1.content
    let fresh := FileStore.load id config (.opened path frameSize writable) content
    fresh.result = .ok () ∧
      (program.store.ask query content).result.map Answer.unmarked =
        (fresh.state.ask query content).result.map Answer.unmarked := by
  intro content fresh
  obtain ⟨more, hholds⟩ := (holds_start hbase).run hmoves
  obtain ⟨hresult, hknows, -⟩ := hholds.load id config path frameSize writable
  refine ⟨hresult, ?_⟩
  rw [hholds.ask (hholds.stores hprogram) query, hholds.ask hknows query]
  cases ((Catalog.new []).after _).answer query with
  | error e => rfl
  | ok answer => simp [Except.map]

/-- What a writer has left that stopped behind its first frame. -/
def abandoned : List Frame := Frame.numbered [9] 2 [[1, 2]]

/-- The frames of the record of `sample id` under a group. -/
def recorded (id : UInt8) (group : Bytes) : List Frame :=
  (Saving.parameters (.sample id)).record.row group

theorem recorded_frames (id : UInt8) (h : id ∈ [1, 2]) (group : Bytes) :
    (Saving.parameters (.sample id)).record.frames group 64 = .ok (recorded id group) := by
  have hsmall : ∀ id ∈ [1, 2],
      (Saving.parameters (.sample id)).record.size ≤ greatestEntrySize := by decide +kernel
  exact Entry.frames_row (hsmall id h) group

/-- A store is opened, another program appends a record, and a part of it arrives. -/
def overtaken : List Move :=
  [.openStore 0 ⟨[1]⟩ [] "log" 64 true, .appendRow (recorded 2 [0xa2]), .arrive 15]

/-- What the log holds at first: a frame of a record that was abandoned, and a record. -/
def beforehand : List Frame := abandoned ++ recorded 1 [0xa1]

theorem fits_beforehand : ∀ frame ∈ beforehand, frame.Fits := by
  intro frame hframe
  rcases List.mem_append.mp hframe with hold | hnew
  · exact (by decide : ∀ frame ∈ abandoned, frame.Fits) frame hold
  · exact Frame.fits_of_frames (recorded_frames 1 (by simp) [0xa1]) (by decide) frame hnew

theorem groupIds_recorded (id : UInt8) (h : id ∈ [1, 2]) (group : Bytes) :
    groupIds (recorded id group) = [group] := Frame.groupIds_frames (recorded_frames id h group)

theorem found_beforehand :
    Assembly.found beforehand = [([0xa1], (Saving.parameters (.sample 1)).record)] := by
  have hapart : ∀ group ∈ groupIds (recorded 1 [0xa1]), group ∉ groupIds abandoned := by
    rw [groupIds_recorded 1 (by simp)]
    decide
  have hcut : IsStart [9] (abandoned ++ (Frame.numbered [9] 2 [[1, 2], []]).drop 1) :=
    ⟨2, [[1, 2], []], by decide⟩
  rw [beforehand, Assembly.found_append_of_disjoint hapart,
    Assembly.found_of_cut hcut (by decide),
    Assembly.found_frames (recorded_frames 1 (by simp) [0xa1]), List.nil_append]

theorem orderly_overtaken : Orderly beforehand overtaken := by
  have hrow := recorded_frames 2 (by simp) [0xa2]
  have hgroups : overtaken.flatMap Move.groups = [[0xa2]] := by
    simp [overtaken, Move.groups, groupIds_recorded 2]
  refine ⟨fun {row} hmem => ?_, ?_, ?_⟩
  · simp only [overtaken, List.mem_cons, Move.appendRow.injEq, reduceCtorEq, false_or,
      List.not_mem_nil, or_false] at hmem
    subst hmem
    exact ⟨⟨[0xa2], (Frame.isStart_of_frames hrow).1⟩, Frame.fits_of_frames hrow (by decide)⟩
  · rw [hgroups]
    exact List.nodup_singleton _
  · have hothers : [0xa2] ∉ groupIds abandoned ∧ [0xa2] ∉ groupIds (recorded 1 [0xa1]) := by
      rw [groupIds_recorded 1 (by simp)]
      decide
    rw [hgroups]
    rintro group (_ | ⟨_, ⟨⟩⟩) hmem
    exact (Frame.mem_groupIds_append.mp hmem).elim hothers.1 hothers.2

/-- The store that has been opened on what the log held at first. -/
def early : FileStore :=
  (FileStore.load ⟨[1]⟩ [] (.opened "log" 64 true) (bytesOf beforehand)).state

/-- The run leaves the store as it was opened, and the log a part of a record longer. -/
theorem run_overtaken :
    ((start beforehand).run overtaken).1.sites 0 = some ⟨early, .idle⟩ ∧
      ((start beforehand).run overtaken).1.content =
        bytesOf beforehand ++ (bytesOf (recorded 2 [0xa2])).take 15 := by
  obtain ⟨hload, -⟩ :=
    FileStore.load_opened (Frame.shows_bytesOf fits_beforehand) ⟨[1]⟩ [] "log" 64 true
  have hopen : (start beforehand).openStore 0 ⟨[1]⟩ [] "log" 64 true =
      ((start beforehand).place 0 ⟨early, .idle⟩, [.opened 0 (.ok ())]) := by
    have hcapacity : Frame.capacity 64 = .ok 39 := rfl
    simp only [openStore, hcapacity, start, hload]
    rfl
  have hquiet : (start beforehand).arriving = [] := rfl
  have hbytes : (start beforehand).content = bytesOf beforehand := rfl
  simp [overtaken, step, hopen, hquiet, place, hbytes]

theorem early_offset_lt :
    early.log.cursor.offset < ((start beforehand).run overtaken).1.content.length := by
  obtain ⟨-, htaken, -⟩ :=
    FileStore.load_opened (Frame.shows_bytesOf fits_beforehand) ⟨[1]⟩ [] "log" 64 true
  have hoffset : early.log.cursor.offset = (bytesOf beforehand).length := htaken.cursor.offset
  have hrow : 0 < (bytesOf (recorded 2 [0xa2])).length := Nat.pos_of_ne_zero fun hnone =>
    (Frame.isStart_of_frames (recorded_frames 2 (by simp) [0xa2])).2
      (Frame.bytesOf_eq_nil hnone)
  rw [hoffset, run_overtaken.2, List.length_append, List.length_take]
  omega

/-- The frame that was abandoned holds nothing. -/
theorem early_catalog {key : LookupKey} (hkey : (Parameters.sample 1).key = .ok key) :
    early.catalog = (Catalog.new []).insert key (.sample 1) := by
  obtain ⟨-, htaken, hsettings⟩ :=
    FileStore.load_opened (Frame.shows_bytesOf fits_beforehand) ⟨[1]⟩ [] "log" 64 true
  have hconfig : early.catalog.config = [] := congrArg (·.2.1) hsettings
  have hentries := htaken.catalog
  rw [found_beforehand] at hentries
  calc early.catalog
    _ = (Catalog.new early.catalog.config).after [(Saving.parameters (.sample 1)).record] :=
      hentries
    _ = (Catalog.new []).hold (Saving.parameters (.sample 1)).record.content := by
      rw [hconfig, Catalog.after_cons, Catalog.after_nil]
    _ = (Catalog.new []).insert key (.sample 1) := Catalog.hold_sample_one hkey

/-- The store answers from what it holds, whatever the log has become. -/
theorem ask_early {query : Query}
    (h : query ∈ [.byId (Parameters.sample 1).id,
      .byKey (Parameters.sample 1).action (Parameters.sample 1).group]) (content : Bytes) :
    early.ask query content =
      .done early (.parameters (some ((Parameters.sample 1).stamp early.id))) := by
  obtain ⟨key, hkey⟩ := (Parameters.sample 1).key_isOk.mpr (by decide)
  have hcatalog := early_catalog hkey
  simp only [List.mem_cons, List.not_mem_nil, or_false] at h
  rcases h with rfl | rfl
  · refine FileStore.ask_byId_of_held ?_ content
    rw [hcatalog, Catalog.get?_insert, if_pos rfl]
  · refine FileStore.ask_byKey_of_held ?_ content
    rw [hcatalog, Catalog.find_of_key _ hkey, Catalog.ofKey?_insert_self]

/-- A store hands out by identifier and by key what it read before others appended, without looking
at the log. -/
theorem answers_current_overtaken :
    let opened (id : StoreId) := FileStore.load id [] (.opened "log" 64 true)
    let content := ((start beforehand).run overtaken).1.content
    let early := (opened ⟨[1]⟩ (bytesOf beforehand)).state
    let fresh := opened ⟨[2]⟩ content
    let p := Parameters.sample 1
    (∀ frame ∈ beforehand, frame.Fits) ∧ Orderly beforehand overtaken ∧
      ((start beforehand).run overtaken).1.sites 0 = some ⟨early, .idle⟩ ∧
      early.log.cursor.offset < content.length ∧ fresh.result = .ok () ∧
      ∀ query ∈ [Query.byId p.id, .byKey p.action p.group],
        (early.ask query content).state = early ∧
          (early.ask query content).result.map Answer.unmarked = .ok (.parameters (some p)) ∧
          (early.ask query content).result.map Answer.unmarked =
            (fresh.state.ask query content).result.map Answer.unmarked := by
  intro opened content early fresh p
  have hprogram := run_overtaken.1
  have hanswers (query : Query) := answers_current fits_beforehand orderly_overtaken hprogram query
    ⟨[2]⟩ [] "log" 64 true
  refine ⟨fits_beforehand, orderly_overtaken, hprogram, early_offset_lt,
    (hanswers (.byId p.id)).1, fun query hquery => ?_⟩
  have hasked := ask_early hquery content
  refine ⟨congrArg Outcome.state hasked, ?_, (hanswers query).2⟩
  exact congrArg (fun asked => asked.result.map Answer.unmarked) hasked

end SharedLog
end ParameterLog
