/-
Module: ParameterLog.Proofs.OneWinner
Purpose: of the programs that save parameters for one key, at most one is told that it won.
Main exports: SharedLog.catalog, SharedLog.Note.Sound, SharedLog.Story, SharedLog.Race.story,
  SharedLog.Race.once, SharedLog.one_winner
-/
import ParameterLog.Proofs.SaveRace

/-!
Whatever a program learns is what the catalog of the log says at that moment (`Sound`), and the
catalog only ever grows. So what programs learn one after the other is told by a growing catalog
(`Story`), and two of them cannot learn different things about a key.
-/

namespace ParameterLog

open ParameterLog.Frame (bytesOf Grown Shows groupIds)

namespace FileStore

variable {store : FileStore} {base frames shown : List Frame} {content : Bytes} {p : Parameters}
  {key : LookupKey}

/-- A program that can write, with a frame size in bounds, can append any record that is not too
large. -/
theorem append_of_able {record : Entry} {group : Bytes} {capacity : Nat}
    (hwritable : store.log.writable = true)
    (hcapacity : Frame.capacity store.log.frameSize = .ok capacity)
    (hsize : record.size ≤ greatestEntrySize) (hgroup : group.length ≤ greatestField) :
    (store.append record.kind record.id record.data group content).result = .ok () := by
  have hframes := Entry.frames_eq_ok group hsize hcapacity
  have hwrite := (Log.write_of_frames hwritable hframes
    (Frame.fits_of_frames hframes hgroup) content).1
  simp only [append]
  rw [Outcome.andThen_of_ok hwrite]
  rfl

/-- The catalog of a store that has just reconciled answers like the catalog of what is shown. -/
theorem Knows.catalog_reconcile (h : store.Knows base shown) (hgrown : Grown base frames)
    (hshown : shown <+: frames) (hshows : Shows content shown) :
    (store.reconcile content).state.catalog =
      { (Catalog.new []).after (Assembly.ofFrames shown).entries with
        config := (store.reconcile content).state.catalog.config } := by
  have htaken := (h.reconcile hgrown hshown hshows).2.1.catalog
  rw [Catalog.after_new] at htaken
  exact htaken

/-- A save begins if the catalog of what is shown has a place. -/
theorem Knows.check (h : store.Knows base shown) (hgrown : Grown base frames)
    (hshown : shown <+: frames) (hshows : Shows content shown) (hid : p.id ≠ [])
    (hkey : p.key = .ok key) :
    (store.check p content).result =
      .ok (((Catalog.new []).after (Assembly.ofFrames shown).entries).hasRoom p.id key) := by
  have hresult := (h.reconcile hgrown hshown hshows).1
  have hnamed : p.id.isEmpty = false := by simpa using hid
  simp only [FileStore.check, hnamed, hkey, Bool.false_eq_true, if_false,
    Outcome.andThen_of_ok hresult]
  rw [h.catalog_reconcile hgrown hshown hshows]
  rfl

/-- A save ends with what the catalog of what is shown says. -/
theorem Knows.confirm (h : store.Knows base shown) (hgrown : Grown base frames)
    (hshown : shown <+: frames) (hshows : Shows content shown) (hkey : p.key = .ok key) :
    let catalog := (Catalog.new []).after (Assembly.ofFrames shown).entries
    (store.confirm p content).result =
      if (catalog.get? p.id).isSome then .ok true
      else if (catalog.ofKey? key).isSome then .ok false
      else .error (.readBackFailed p.id.hex) := by
  intro catalog
  have hresult := (h.reconcile hgrown hshown hshows).1
  have hcatalog := h.catalog_reconcile hgrown hshown hshows
  have hget : (store.reconcile content).state.catalog.get? p.id = catalog.get? p.id := by
    rw [hcatalog]
    rfl
  have hofKey : (store.reconcile content).state.catalog.ofKey? key = catalog.ofKey? key := by
    rw [hcatalog]
    rfl
  simp only [FileStore.confirm, hkey, Outcome.andThen_of_ok hresult, Outcome.reporting, settle,
    hget, hofKey]
  split
  · rfl
  · split <;> rfl

end FileStore

namespace SharedLog

/-- The catalog of what readers see of the frames. -/
def catalog (log : SharedLog) (frames : List Frame) : Catalog :=
  (Catalog.new []).after (Assembly.ofFrames (log.shown frames)).entries

theorem coherent_catalog (log : SharedLog) (frames : List Frame) :
    (log.catalog frames).Coherent :=
  (Catalog.coherent_new []).after _

/-- The entries of a part of the log are the first of those of more of it. -/
theorem Holds.entries_prefix {log : SharedLog} {base frames xs ys : List Frame}
    (h : log.Holds base frames) (hbase : base <+: xs) (hys : xs <+: ys) (hframes : ys <+: frames) :
    (Assembly.ofFrames xs).entries <+: (Assembly.ofFrames ys).entries := by
  obtain ⟨more, rfl⟩ := hys
  obtain ⟨zs, hzs⟩ := hframes
  obtain ⟨-, hfound⟩ := h.grown.found_eq hzs.symm hbase.length_le
  rw [Assembly.entries_ofFrames, Assembly.entries_ofFrames, hfound, List.map_append]
  exact List.prefix_append _ _

/-- The catalog of a log grows with the log. -/
theorem Holds.grows {log after : SharedLog} {base frames more : List Frame}
    (h : log.Holds base frames) (hafter : after.Holds base more)
    (hshown : log.shown frames <+: after.shown more) :
    Catalog.Extends (log.catalog frames) (after.catalog more) := by
  have hmore := Holds.shown_initial after more
  obtain ⟨later, hlater⟩ := hafter.entries_prefix h.base_prefix hshown hmore
  rw [catalog, catalog, ← hlater, Catalog.after_append]
  exact Catalog.extends_after _ _

/-! ### What programs learn -/

/-- What a program learns is what a catalog says: a save has ended for or against it, and some
parameters are held for its key, its own if it was told that they are new. -/
def Note.Sound (catalog : Catalog) : Note → Prop
  | .opened _ result => result = .ok ()
  | .saved _ (.parameters p) result =>
    ∃ key holder won, p.key = .ok key ∧ result = .ok won ∧ catalog.ofKey? key = some holder ∧
      (won = true → holder = p.unmarked)
  | .saved _ (.set _) _ => False
  | .answered _ query result => ∃ id, result = (catalog.answer query).map (·.stamp id)

variable {writers : Nat → Prop} {base frames : List Frame} {log : SharedLog}
  {ahead : List Parameters}

/-- Parameters that are in no record are not held. -/
theorem Holds.get?_eq_none (h : log.Holds base frames) {id : Bytes} (hunused : Unused frames id) :
    (log.catalog frames).get? id = none := by
  have hshown := Holds.shown_initial log frames
  have hentries := h.entries_prefix h.base_prefix hshown List.prefix_rfl
  by_contra hne
  obtain ⟨q, hq⟩ := Option.ne_none_iff_exists'.mp hne
  rcases Catalog.mem_of_get?_after hq with hnew | ⟨entry, hentry, hid, -⟩
  · simp [Catalog.new, Catalog.get?] at hnew
  · exact hunused entry (hentries.subset hentry) hid

/-- What a save comes to whose record is in the log. -/
theorem Holds.recorded (h : log.Holds base frames) {p : Parameters} (hp : p.Storable)
    {key : LookupKey} (hkey : p.key = .ok key) {upTo : Nat}
    (hrecorded : Recorded base frames p upTo) (hthere : upTo ≤ log.content.length) :
    (∃ holder, (log.catalog frames).ofKey? key = some holder) ∧
      ((log.catalog frames).get? p.id ≠ none →
        (log.catalog frames).ofKey? key = some p.unmarked) := by
  obtain ⟨⟨early, hbase, ⟨later, rfl⟩, rfl, hmem⟩, hsole⟩ := hrecorded
  have hshown := Holds.shown_initial log (early ++ later)
  have hearly : early <+: log.shown (early ++ later) := by
    rw [shown, Frame.whole_append hthere]
    exact List.prefix_append _ _
  have hentries := h.entries_prefix hbase hearly hshown
  have hall := h.entries_prefix h.base_prefix hshown List.prefix_rfl
  have hcoherent := coherent_catalog log (early ++ later)
  have hown : (log.catalog (early ++ later)).get? p.id ≠ none →
      (log.catalog (early ++ later)).ofKey? key = some p.unmarked := by
    intro hne
    obtain ⟨q, hq⟩ := Option.ne_none_iff_exists'.mp hne
    rcases Catalog.mem_of_get?_after hq with hnew | ⟨entry, hentry, hid, other, hcontent⟩
    · simp [Catalog.new, Catalog.get?] at hnew
    · -- The record is the only one with the identifier, so it is what is held.
      rw [hsole entry (hall.subset hentry) hid, hp.content_record hkey] at hcontent
      simp only [Entry.Content.parameters.injEq] at hcontent
      obtain ⟨rfl, rfl⟩ := hcontent
      exact hcoherent.ofKey?_eq_some_iff.mpr ⟨hq, hkey⟩
  refine ⟨?_, hown⟩
  have hcontent := hp.content_record hkey
  have htaken : (log.catalog (early ++ later)).hasRoom p.unmarked.id key = false :=
    Catalog.taken_of_mem (hentries.subset hmem) hcontent
  change (log.catalog (early ++ later)).hasRoom p.id key = false at htaken
  cases hofKey : (log.catalog (early ++ later)).ofKey? key with
  | some holder => exact ⟨holder, rfl⟩
  | none =>
    cases hget : (log.catalog (early ++ later)).get? p.id with
    | none =>
      rw [Catalog.hasRoom_iff.mpr ⟨hget, hofKey⟩] at htaken
      simp at htaken
    | some q =>
      rw [hown (by simp [hget])] at hofKey
      simp at hofKey

/-- A save that is turned away finds its key taken. -/
theorem Race.sound_turnedAway (h : Race writers base frames log ahead) {site : Nat}
    {store : FileStore} {p : Parameters} (ready : log.sites site = some ⟨store, .idle⟩)
    (hp : p.Storable) (hunused : Unused frames p.id)
    (result : (store.check p log.content).result ≠ .ok true) :
    Note.Sound (log.catalog frames)
      (.saved site (.parameters p) (store.check p log.content).result) := by
  obtain ⟨key, hkey⟩ := hp.key_eq
  have hknows : store.Knows base _ := h.holds.stores ready
  have hcheck : (store.check p log.content).result = .ok ((log.catalog frames).hasRoom p.id key) :=
    hknows.check h.holds.grown (Holds.shown_initial log frames) h.holds.shows hp.named hkey
  have hroom : (log.catalog frames).hasRoom p.id key = false := by
    rw [hcheck] at result
    simpa using result
  have hofKey : (log.catalog frames).ofKey? key ≠ none := by
    intro hnone
    rw [Catalog.hasRoom_iff.mpr ⟨h.holds.get?_eq_none hunused, hnone⟩] at hroom
    simp at hroom
  obtain ⟨holder, hholder⟩ := Option.ne_none_iff_exists'.mp hofKey
  refine ⟨key, holder, false, hkey, ?_, hholder, by simp⟩
  rw [hcheck, hroom]

/-- A save that has appended its record finds it held for its key, or another one. -/
theorem Race.sound_confirmed (h : Race writers base frames log ahead) {site upTo : Nat}
    {store : FileStore} {p : Parameters}
    (ready : log.sites site = some ⟨store, .written (.parameters p) upTo⟩) (hp : p.Storable)
    (there : upTo ≤ log.content.length) :
    Note.Sound (log.catalog frames)
      (.saved site (.parameters p) (store.confirm p log.content).result) := by
  obtain ⟨key, hkey⟩ := hp.key_eq
  have hrecorded := (h.runners ready).written rfl
  obtain ⟨⟨holder, hholder⟩, hown⟩ := h.holds.recorded hp hkey hrecorded there
  have hknows : store.Knows base _ := h.holds.stores ready
  have hconfirm : (store.confirm p log.content).result =
      if ((log.catalog frames).get? p.id).isSome then .ok true
      else if ((log.catalog frames).ofKey? key).isSome then .ok false
      else .error (.readBackFailed p.id.hex) :=
    hknows.confirm h.holds.grown (Holds.shown_initial log frames) h.holds.shows hkey
  rw [hholder] at hconfirm
  by_cases hget : (log.catalog frames).get? p.id = none
  · refine ⟨key, holder, false, hkey, ?_, hholder, by simp⟩
    rw [hconfirm, hget]
    rfl
  · refine ⟨key, p.unmarked, true, hkey, ?_, hown hget, fun _ => rfl⟩
    rw [hconfirm, if_pos (Option.isSome_iff_ne_none.mpr hget)]

/-- What programs learn by a move is what the catalog of the log says before the move. -/
theorem Race.sound {move : Move} {rest : List Move} (hmoves : Fair writers frames (move :: rest))
    (h : Race writers base frames log ((move :: rest).flatMap Move.saves)) :
    ∀ note ∈ (log.step move).2, note.Sound (log.catalog frames) := by
  have hallowed := hmoves.allowed List.mem_cons_self
  have heffect := log.effect_step move
  generalize (log.step move).1 = after, (log.step move).2 = notes at heffect ⊢
  cases heffect with
  | none => simp
  | @refused site id config path frameSize writable e cause =>
    rcases cause with hcapacity | hresult
    · obtain ⟨⟨capacity, hbounded⟩, -⟩ := hallowed
      rw [hcapacity] at hbounded
      simp at hbounded
    · rw [(h.holds.load id config path frameSize writable).1] at hresult
      simp at hresult
  | opened => simp [Note.Sound]
  | checked => simp
  | @turnedAway site store saving ready result =>
    cases saving with
    | set s => exact hallowed.elim
    | parameters p =>
      have hunused : Unused frames p.id := h.unused p (by simp [Move.saves])
      rw [List.forall_mem_singleton]
      exact h.sound_turnedAway ready hallowed.2 hunused result
  | appended => simp
  | @failed site store saving group e ready result =>
    have hrunner := h.runners ready
    obtain ⟨hwriter, p, rfl, hp⟩ := hrunner.busy rfl
    obtain ⟨capacity, hbounded⟩ := hrunner.bounded
    rw [FileStore.append_of_able (hrunner.writable hwriter) hbounded hp.small hallowed] at result
    simp at result
  | @confirmed site store saving upTo ready there =>
    obtain ⟨-, p, rfl, hp⟩ := (h.runners ready).busy rfl
    rw [List.forall_mem_singleton]
    exact h.sound_confirmed ready hp there
  | @asked site program query ready =>
    rw [List.forall_mem_singleton]
    exact ⟨program.store.id, h.holds.ask (h.holds.stores ready) query⟩
  | appendedRow => simp
  | arrived => simp

/-! ### A growing catalog -/

/-- Notes that a growing catalog tells one after the other. -/
inductive Story : Catalog → List Note → Catalog → Prop where
  | done {before after : Catalog} (grows : Catalog.Extends before after) : Story before [] after
  | told {before now after : Catalog} {note : Note} {rest : List Note}
      (grows : Catalog.Extends before now) (sound : note.Sound now) (more : Story now rest after) :
      Story before (note :: rest) after

namespace Story

variable {before now after : Catalog} {notes more : List Note}

theorem sooner {early : Catalog} (hearly : Catalog.Extends early before)
    (h : Story before notes after) : Story early notes after := by
  cases h with
  | done grows => exact .done (hearly.trans grows)
  | told grows sound more => exact .told (hearly.trans grows) sound more

theorem append (h : Story before notes now) (hmore : Story now more after) :
    Story before (notes ++ more) after := by
  induction h with
  | done grows => exact hmore.sooner grows
  | told grows sound _ ih => exact .told grows sound (ih hmore)

theorem of_sound (h : ∀ note ∈ notes, note.Sound before) (grows : Catalog.Extends before after) :
    Story before notes after := by
  induction notes with
  | nil => exact .done grows
  | cons note rest ih =>
    exact .told (.refl _) (h note List.mem_cons_self)
      (ih fun other hother => h other (List.mem_cons_of_mem _ hother))

theorem grown (h : Story before notes after) : Catalog.Extends before after := by
  induction h with
  | done grows => exact grows
  | told grows sound more ih => exact grows.trans ih

theorem sound_of_mem (h : Story before notes after) {note : Note} (hnote : note ∈ notes) :
    ∃ now, Catalog.Extends before now ∧ note.Sound now ∧ Catalog.Extends now after := by
  induction h with
  | done => simp at hnote
  | @told before now after first rest grows sound more ih =>
    rcases List.mem_cons.mp hnote with rfl | hnote
    · exact ⟨now, grows, sound, more.grown⟩
    · obtain ⟨then', hthen, hsound, hafter⟩ := ih hnote
      exact ⟨then', grows.trans hthen, hsound, hafter⟩

/-- A later note is told by a catalog that has grown since an earlier one. -/
theorem pairwise (h : Story before notes after) :
    notes.Pairwise fun earlier later => ∃ first second, earlier.Sound first ∧
      Catalog.Extends first second ∧ later.Sound second ∧ Catalog.Extends second after := by
  induction h with
  | done => exact .nil
  | @told before now after first rest grows sound more ih =>
    refine List.pairwise_cons.mpr ⟨fun later hlater => ?_, ih⟩
    obtain ⟨second, hsecond, hsound, hafter⟩ := more.sound_of_mem hlater
    exact ⟨now, second, sound, hsecond, hsound, hafter⟩

end Story

/-- A move of the race makes the catalog of the log no smaller. -/
theorem Race.grows {move : Move} {row : List Frame}
    (h : log.Holds base frames) (hafter : (log.step move).1.Holds base (frames ++ row)) :
    Catalog.Extends (log.catalog frames) ((log.step move).1.catalog (frames ++ row)) := by
  apply h.grows hafter
  exact (Frame.whole_mono (log.length_content_step move) frames).trans
    (Frame.whole_append_prefix _ _ _)

/-- What programs learn in a race is told by a growing catalog. -/
theorem Race.story {moves : List Move} (hmoves : Fair writers frames moves)
    (h : Race writers base frames log (moves.flatMap Move.saves)) :
    ∃ after, Story (log.catalog frames) (log.run moves).2 after := by
  induction moves generalizing log frames with
  | nil => exact ⟨_, .done (.refl _)⟩
  | cons move rest ih =>
    obtain ⟨row, hstep, hrest⟩ := h.step hmoves
    obtain ⟨after, hstory⟩ := ih hrest hstep
    have hgrows := Race.grows h.holds hstep.holds
    exact ⟨after, (Story.of_sound (h.sound hmoves) hgrows).append hstory⟩

/-! ### One end for each save -/

/-- A note that a save of parameters with an identifier has ended. -/
def Note.Ends (id : Bytes) (note : Note) : Prop :=
  ∃ site p result, note = .saved site (.parameters p) result ∧ p.id = id

/-- No save of parameters with the identifier is in progress or yet to begin. -/
def Over (log : SharedLog) (ahead : List Parameters) (id : Bytes) : Prop :=
  (∀ {site p}, log.Pending site p → p.id ≠ id) ∧ ∀ p ∈ ahead, p.id ≠ id

/-- What is in progress after a move was in progress before it or has been begun by it. -/
theorem pending_step {move : Move} {site : Nat} {p : Parameters}
    (h : (log.step move).1.Pending site p) : log.Pending site p ∨ p ∈ move.saves := by
  have heffect := log.effect_step move
  generalize (log.step move).1 = after, (log.step move).2 = notes at heffect h
  cases heffect with
  | none => exact .inl h
  | refused => exact .inl h
  | appendedRow => exact .inl h
  | arrived => exact .inl h
  | opened => exact .inl (pending_place_idle h)
  | checked saving ready result =>
    rcases pending_place h with ⟨-, hsaving⟩ | ⟨-, hold⟩
    · simp only [Task.saving?, Option.some.injEq] at hsaving
      subst hsaving
      exact .inr (by simp [Move.saves])
    · exact .inl hold
  | turnedAway => exact .inl (pending_place_idle h)
  | appended ready quiet split fits =>
    refine .inl (pending_of_place ?_ h)
    exact fun hsaving => ⟨_, ready, hsaving⟩
  | failed => exact .inl (pending_place_idle h)
  | confirmed => exact .inl (pending_place_idle h)
  | asked query ready =>
    refine .inl (pending_of_place ?_ h)
    exact fun hsaving => ⟨_, ready, hsaving⟩

theorem Over.step {move : Move} {rest : List Move} {id : Bytes}
    (h : log.Over ((move :: rest).flatMap Move.saves) id) :
    (log.step move).1.Over (rest.flatMap Move.saves) id := by
  rw [List.flatMap_cons] at h
  refine ⟨fun hpending => ?_, fun p hp => h.2 p (List.mem_append_right _ hp)⟩
  rcases pending_step hpending with hbefore | hbegun
  · exact h.1 hbefore
  · exact h.2 _ (List.mem_append_left _ hbegun)

/-- A save that was in progress is over when its program is idle. -/
theorem Race.over_place_idle (h : Race writers base frames log ahead) {site : Nat}
    {p : Parameters} (hpending : log.Pending site p) (store : FileStore) :
    (log.place site ⟨store, .idle⟩).Over ahead p.id := by
  refine ⟨fun hother => ?_, fun q hq hid => h.begun hpending hq hid.symm⟩
  rcases pending_place hother with ⟨-, hsaving⟩ | ⟨hne, hold⟩
  · simp [Task.saving?] at hsaving
  · exact fun hid => hne (h.alone hold hpending hid)

/-- A save ends by a move only if it was in progress or is begun by the move; then it is over. -/
theorem Race.ends {move : Move} {rest : List Move} (hmoves : Fair writers frames (move :: rest))
    (h : Race writers base frames log ((move :: rest).flatMap Move.saves)) {note : Note}
    (hnote : note ∈ (log.step move).2) {id : Bytes} (hends : note.Ends id) :
    ¬ log.Over ((move :: rest).flatMap Move.saves) id ∧
      (log.step move).1.Over (rest.flatMap Move.saves) id := by
  obtain ⟨at', p, result, rfl, rfl⟩ := hends
  have hdistinct := hmoves.distinct
  rw [List.flatMap_cons] at h hdistinct ⊢
  have hfewer := h.fewer fun q hq => List.mem_append_right move.saves hq
  have heffect := log.effect_step move
  generalize (log.step move).1 = after, (log.step move).2 = notes at heffect hnote ⊢
  cases heffect with
  | none => simp at hnote
  | refused => simp at hnote
  | opened => simp at hnote
  | checked => simp at hnote
  | @turnedAway site store saving ready answer =>
    simp only [List.mem_singleton, Note.saved.injEq] at hnote
    obtain ⟨rfl, rfl, -⟩ := hnote
    refine ⟨fun hover => hover.2 p (by simp [Move.saves]) rfl, fun hother => ?_, fun q hq hid => ?_⟩
    · exact h.begun (pending_place_idle hother) (by simp [Move.saves])
    · simp only [Move.saves, List.singleton_append, List.map_cons, List.nodup_cons] at hdistinct
      have hmem : q.id ∈ (rest.flatMap Move.saves).map (·.id) := List.mem_map_of_mem hq
      rw [hid] at hmem
      exact hdistinct.1 hmem
  | appended => simp at hnote
  | @failed site store saving group e ready answer =>
    simp only [List.mem_singleton, Note.saved.injEq] at hnote
    obtain ⟨rfl, rfl, -⟩ := hnote
    have hpending : log.Pending at' p := ⟨_, ready, rfl⟩
    exact ⟨fun hover => hover.1 hpending rfl, hfewer.over_place_idle hpending _⟩
  | @confirmed site store saving upTo ready there =>
    simp only [List.mem_singleton, Note.saved.injEq] at hnote
    obtain ⟨rfl, rfl, -⟩ := hnote
    have hpending : log.Pending at' p := ⟨_, ready, rfl⟩
    exact ⟨fun hover => hover.1 hpending rfl, hfewer.over_place_idle hpending _⟩
  | asked => simp at hnote
  | appendedRow => simp at hnote
  | arrived => simp at hnote

/-- A move gives at most one note. -/
theorem length_notes_step (log : SharedLog) (move : Move) : (log.step move).2.length ≤ 1 := by
  have heffect := log.effect_step move
  generalize (log.step move).1 = after, (log.step move).2 = notes at heffect ⊢
  cases heffect <;> simp

/-- A save that is over does not end again. -/
theorem Race.not_ends_of_over {moves : List Move} (hmoves : Fair writers frames moves)
    (h : Race writers base frames log (moves.flatMap Move.saves)) {id : Bytes}
    (hover : log.Over (moves.flatMap Move.saves) id) :
    ∀ note ∈ (log.run moves).2, ¬ note.Ends id := by
  induction moves generalizing log frames with
  | nil => simp
  | cons move rest ih =>
    intro note hnote hends
    rw [run_cons] at hnote
    rcases List.mem_append.mp hnote with hnote | hnote
    · exact (h.ends hmoves hnote hends).1 hover
    · obtain ⟨row, hstep, hrest⟩ := h.step hmoves
      exact ih hrest hstep hover.step note hnote hends

/-- Each save ends at most once. -/
theorem Race.once {moves : List Move} (hmoves : Fair writers frames moves)
    (h : Race writers base frames log (moves.flatMap Move.saves)) :
    (log.run moves).2.Pairwise fun earlier later => ∀ id, ¬ (earlier.Ends id ∧ later.Ends id) := by
  induction moves generalizing log frames with
  | nil => exact .nil
  | cons move rest ih =>
    obtain ⟨row, hstep, hrest⟩ := h.step hmoves
    rw [run_cons]
    refine List.pairwise_append.mpr ⟨?_, ih hrest hstep, ?_⟩
    · have hshort := length_notes_step log move
      generalize (log.step move).2 = notes at hshort
      cases notes with
      | nil => exact .nil
      | cons note more =>
        have hmore : more = [] := by simpa using hshort
        rw [hmore]
        exact List.pairwise_singleton _ _
    · intro earlier hearlier later hlater id hends
      have hover := (h.ends hmoves hearlier hends.1).2
      exact hstep.not_ends_of_over hrest hover later hlater hends.2

/-! ### The winner of a key -/

/-- A note that a save for a key has ended. -/
def Note.Finishes (key : LookupKey) (note : Note) : Prop :=
  ∃ site p result, note = .saved site (.parameters p) result ∧ p.key = .ok key

/-- A note that a save for a key has won. -/
def Note.Wins (key : LookupKey) (note : Note) : Prop :=
  ∃ site p, note = .saved site (.parameters p) (.ok true) ∧ p.key = .ok key

/-- A note that a lookup of a key has given an answer. -/
def Note.Finds (key : LookupKey) (result : Except StoreError Answer) (note : Note) : Prop :=
  ∃ site action group, note = .answered site (.byKey action group) result ∧
    LookupKey.of action group = .ok key

/-- Saves of parameters on one log, each under an identifier of its own and in three steps that
mingle with those of others, end for or against what is saved. For one key at most one of them is
told that it has won, and after the first of them has ended every lookup finds the same object:
that of the winner, if there is one. -/
theorem one_winner {moves : List Move} (hbase : ∀ frame ∈ base, frame.Fits)
    (hmoves : Fair writers base moves)
    (hunused : ∀ p ∈ moves.flatMap Move.saves, Unused base p.id) :
    let notes := ((start base).run moves).2
    (∀ site result, .opened site result ∈ notes → result = .ok ()) ∧
      (∀ site saving result, .saved site saving result ∈ notes →
        result = .ok true ∨ result = .ok false) ∧
      ∀ key, (notes.Pairwise fun earlier later => ¬ (earlier.Wins key ∧ later.Wins key)) ∧
        ∃ holder : Parameters,
          (∀ site p, .saved site (.parameters p) (.ok true) ∈ notes → p.key = .ok key →
            p.unmarked = holder) ∧
          notes.Pairwise fun earlier later => earlier.Finishes key →
            ∀ result, later.Finds key result →
              result.map Answer.unmarked = .ok (.parameters (some holder)) := by
  intro notes
  have hrace : Race writers base base (start base) _ := race_start hbase hunused
  obtain ⟨last, hstory⟩ := hrace.story hmoves
  have hwinner : ∀ {site p key}, .saved site (.parameters p) (.ok true) ∈ notes →
      p.key = .ok key → last.ofKey? key = some p.unmarked := by
    intro site p key hmem hkey
    obtain ⟨now, -, ⟨other, holder, won, hother, hresult, hholder, hown⟩, hlast⟩ :=
      hstory.sound_of_mem hmem
    obtain rfl : key = other := Except.ok.inj (hkey.symm.trans hother)
    obtain rfl : true = won := Except.ok.inj hresult
    rw [← hown rfl]
    exact hlast.ofKey? hholder
  refine ⟨fun site result hmem => ?_, fun site saving result hmem => ?_, fun key => ⟨?_, ?_⟩⟩
  · obtain ⟨now, -, hsound, -⟩ := hstory.sound_of_mem hmem
    exact hsound
  · obtain ⟨now, -, hsound, -⟩ := hstory.sound_of_mem hmem
    cases saving with
    | set s => exact hsound.elim
    | parameters p =>
      obtain ⟨key, holder, won, -, rfl, -⟩ := hsound
      cases won with
      | true => exact .inl rfl
      | false => exact .inr rfl
  · refine (hrace.once hmoves).imp_of_mem fun {earlier later} hearlier hlater hdistinct hboth => ?_
    obtain ⟨⟨site, p, rfl, hp⟩, other, q, rfl, hq⟩ := hboth
    have hsame : p.unmarked = q.unmarked :=
      Option.some.inj ((hwinner hearlier hp).symm.trans (hwinner hlater hq))
    have hid : p.unmarked.id = q.unmarked.id := congrArg Parameters.id hsame
    exact hdistinct p.id ⟨⟨site, p, _, rfl, rfl⟩, other, q, _, rfl, hid.symm⟩
  · refine ⟨((last.ofKey? key).getD default).unmarked, fun site p hmem hkey => ?_, ?_⟩
    · rw [hwinner hmem hkey]
      rfl
    · refine hstory.pairwise.imp fun {earlier later} htold hfinishes result hfinds => ?_
      obtain ⟨first, second, hearlier, hgrows, hlater, hlast⟩ := htold
      obtain ⟨site, p, ended, rfl, hkey⟩ := hfinishes
      obtain ⟨other, action, group, rfl, hof⟩ := hfinds
      obtain ⟨found, holder, won, hfound, -, hholder, -⟩ := hearlier
      obtain rfl : key = found := Except.ok.inj (hkey.symm.trans hfound)
      obtain ⟨id, rfl⟩ := hlater
      have hheld := hgrows.ofKey? hholder
      rw [hlast.ofKey? hheld]
      simp [Catalog.answer, Catalog.find, hof, Except.map, hheld, Answer.stamp, Answer.unmarked]

/-- Two programs save parameters of one key, and both look before either appends. -/
def duel : List Move :=
  [.openStore 0 ⟨[1]⟩ [] "log" 64 true, .openStore 1 ⟨[2]⟩ [] "log" 64 true,
    .check 0 (.parameters (.sample 1)), .check 1 (.parameters (.sample 2)),
    .append 0 [1], .arrive 300, .append 1 [2], .arrive 300, .confirm 1, .confirm 0,
    .ask 1 (.byKey (Parameters.sample 1).action (Parameters.sample 1).group)]

theorem one_winner_duel :
    (∀ frame ∈ ([] : List Frame), frame.Fits) ∧ Fair (fun site => site < 2) [] duel ∧
      (∀ p ∈ duel.flatMap Move.saves, Unused [] p.id) ∧
      ∀ key, ((start []).run duel).2.Pairwise fun earlier later =>
        ¬ (earlier.Wins key ∧ later.Wins key) := by
  have hbase : ∀ frame ∈ ([] : List Frame), frame.Fits := by simp
  have hfirst : (Parameters.sample 1).Storable :=
    ⟨by decide, by decide, by decide +kernel, Parameters.readable_sample_one⟩
  have hsecond : (Parameters.sample 2).Storable :=
    ⟨by decide, by decide, by decide +kernel, Parameters.readable_sample_two⟩
  have hmoves : Fair (fun site => site < 2) [] duel := by
    refine ⟨fun {move} hmem => ?_, ⟨fun {row} hmem => ?_, by decide, by decide⟩, by decide⟩
    · simp only [duel, List.mem_cons, List.not_mem_nil, or_false] at hmem
      rcases hmem with rfl | rfl | rfl | rfl | rfl | rfl | rfl | rfl | rfl | rfl | rfl
      · exact ⟨⟨39, rfl⟩, fun _ => rfl⟩
      · exact ⟨⟨39, rfl⟩, fun _ => rfl⟩
      · exact ⟨by decide, hfirst⟩
      · exact ⟨by decide, hsecond⟩
      all_goals simp [Move.Allowed, greatestField]
    · simp [duel] at hmem
  have hunused : ∀ p ∈ duel.flatMap Move.saves, Unused [] p.id := by
    intro p _ entry hentry
    simp [Assembly.entries_ofFrames] at hentry
  exact ⟨hbase, hmoves, hunused,
    fun key => ((one_winner hbase hmoves hunused).2.2 key).1⟩

end SharedLog
end ParameterLog
