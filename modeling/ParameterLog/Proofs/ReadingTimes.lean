/-
Module: ParameterLog.Proofs.ReadingTimes
Purpose: when the moments at which a store reads its log make a difference to its answers.
Main exports: FileStore.follow, FileStore.Keeps, Frame.ReadAlike, Frame.Calm,
  Frame.read_alike_of_calm, Writing.Contest, Frame.read_alike_iff
-/
import ParameterLog.Proofs.Interleaving
import ParameterLog.Proofs.ReplayOrder
import ParameterLog.Proofs.StoreReading

/-!
A reader of a whole log takes entries in by their first frames. A store that reads while the log
grows takes an entry in when it has its last frame, so an entry that lies between the frames of
another overtakes it. That changes no answer as long as the two contest nothing (`Calm`): whatever
the store has read by some moment, it holds what a reader holds that reads as much at once
(`Keeps`).

It is no more than that. If two entries contest something, and the first takes more than one frame,
then there is a log on which a store that read in time answers otherwise than one that reads it
whole (`not_contest_of_read_alike`): which of the two wins depends on when a store reads.
-/

namespace ParameterLog

open ParameterLog.Frame (bytesOf whole Shows Continues Open Encloses Interleaves)
open Assembly (found)

/-- What a store is opened with. -/
structure Opening where
  id : StoreId
  config : Json.Members
  path : String
  frameSize : Nat
  writable : Bool
deriving Inhabited

/-- Opens a store on a log with the content. -/
def Opening.load (opening : Opening) (content : Bytes) : Outcome FileStore Unit :=
  FileStore.load opening.id opening.config
    (.opened opening.path opening.frameSize opening.writable) content

/-- Reconciles a store behind each of several appends. -/
def FileStore.follow (content : Bytes) : List Bytes → FileStore → Outcome FileStore Unit
  | [], store => .done store ()
  | chunk :: rest, store =>
    (store.reconcile (content ++ chunk)).andThen fun _ store =>
      store.follow (content ++ chunk) rest

/-- Opens a store on the first bytes of a log and reconciles it behind each of several appends. -/
def Opening.follow (opening : Opening) (first : Bytes) (chunks : List Bytes) :
    Outcome FileStore Unit :=
  (opening.load first).andThen fun _ store => store.follow first chunks

/-- A query for one object. -/
def Query.IsLookup : Query → Prop
  | .byId _ | .byKey _ _ | .byHash _ => True
  | .allParameters | .allSets => False

/-- However the log has grown to these frames, and whenever a store has read it meanwhile, the store
answers each lookup as one does that is opened on the whole log. -/
def Frame.ReadAlike (frames : List Frame) : Prop :=
  ∀ (early fresh : Opening) (first : Bytes) (chunks : List Bytes),
    first ++ chunks.flatten <+: bytesOf frames →
      (early.follow first chunks).result = .ok () ∧
        (fresh.load (bytesOf frames)).result = .ok () ∧
        ∀ query : Query, query.IsLookup →
          (((early.follow first chunks).state.ask query (bytesOf frames)).result).map
              Answer.unmarked =
            (((fresh.load (bytesOf frames)).state.ask query (bytesOf frames)).result).map
              Answer.unmarked

/-- No entry contests anything with one that its group encloses, after some of the others. -/
def Frame.Calm (frames : List Frame) : Prop :=
  ∀ us a b, (us ++ [a, b]).Subperm (found frames) → Encloses frames a.1 b.1 →
    ¬ (Catalog.ofEntries (us.map (·.2))).Contested a.2.content b.2.content

open Catalog (Alike ofEntries)
open Cursor (given)

variable {frames xs ys zs : List Frame}

/-- Entries that were taken in later fit behind what was held before. -/
theorem alike_given (hcalm : Frame.Calm frames) (hcuttable : Frame.Cuttable frames)
    (hframes : frames = xs ++ ys ++ zs) {entries : List Entry}
    (h : Alike (ofEntries entries) (ofEntries ((found xs).map (·.2)))) :
    Alike (ofEntries (entries ++ given xs ys)) (ofEntries ((found (xs ++ ys)).map (·.2))) := by
  have hwhole : Continues xs (ys ++ zs) :=
    hcuttable xs (ys ++ zs) (hframes.trans (List.append_assoc ..))
  have hcontinues : Continues xs ys :=
    fun frame hframe => hwhole frame (List.mem_append_left _ hframe)
  have hlater : Continues (xs ++ ys) zs := hcuttable (xs ++ ys) zs hframes
  have hpart : (found (xs ++ ys)).Subperm (found frames) := by
    rw [hframes, Assembly.found_append_left hlater]
    exact List.filter_sublist.subperm
  have hpartition := Catalog.alike_partition [] (found (xs ++ ys))
    (fun item : Bytes × Entry => item.2) (fun item => Open xs item.1)
    fun us a b hus hab ha hb => hcalm us a b (hus.trans hpart) <|
      hframes ▸ Assembly.encloses_of_overtaken hwhole hab ha hb
  have hgiven : given xs ys =
      ((found (xs ++ ys)).filter fun item => Open xs item.1).map (·.2) := by
    rw [given, Assembly.found_append_right hcontinues]
  rw [List.nil_append, List.nil_append, List.map_append, ← Assembly.found_append_left hcontinues,
    ← hgiven] at hpartition
  exact (h.append _).trans hpartition

namespace FileStore

/-- The store has read frames, and holds what a reader holds that reads them at once. -/
def Keeps (store : FileStore) (frames : List Frame) : Prop :=
  ∃ entries, store.HasTaken frames entries ∧
    Alike (ofEntries entries) (ofEntries ((found frames).map (·.2)))

variable {store : FileStore} {content : Bytes}

theorem Keeps.reconcile (h : store.Keeps xs) (hcalm : Frame.Calm frames)
    (hcuttable : Frame.Cuttable frames) (hframes : frames = xs ++ ys ++ zs)
    (hshows : Shows content (xs ++ ys)) :
    (store.reconcile content).result = .ok () ∧
      (store.reconcile content).state.Keeps (xs ++ ys) := by
  obtain ⟨entries, htaken, halike⟩ := h
  have hwhole := hcuttable xs (ys ++ zs) (hframes.trans (List.append_assoc ..))
  have hcontinues : Continues xs ys :=
    fun frame hframe => hwhole frame (List.mem_append_left _ hframe)
  obtain ⟨hresult, htaken, -⟩ := htaken.reconcile hshows hcontinues
  exact ⟨hresult, _, htaken, alike_given hcalm hcuttable hframes halike⟩

/-- Following the log keeps up with it. -/
theorem Keeps.follow (hfits : ∀ frame ∈ frames, frame.Fits) (hcalm : Frame.Calm frames)
    (hcuttable : Frame.Cuttable frames) {chunks : List Bytes}
    (hinitial : content ++ chunks.flatten <+: bytesOf frames)
    (h : store.Keeps (whole content.length frames)) :
    (store.follow content chunks).result = .ok () ∧
      ∃ count, (store.follow content chunks).state.Keeps (whole count frames) := by
  induction chunks generalizing store content with
  | nil => exact ⟨rfl, _, h⟩
  | cons chunk rest ih =>
    rw [List.flatten_cons, ← List.append_assoc] at hinitial
    have hcontent : content ++ chunk <+: bytesOf frames := (List.prefix_append _ _).trans hinitial
    have hshows := Frame.shows_of_prefix hfits hcontent
    have hlonger : content.length ≤ (content ++ chunk).length := by simp
    obtain ⟨ys, hys⟩ := Frame.whole_mono hlonger frames
    obtain ⟨zs, hzs⟩ := Frame.whole_initial (content ++ chunk).length frames
    rw [← hys] at hshows hzs
    obtain ⟨hresult, hkeeps⟩ := h.reconcile hcalm hcuttable hzs.symm hshows
    rw [hys] at hkeeps
    obtain ⟨hdone, hlast⟩ := ih hinitial hkeeps
    rw [FileStore.follow, Outcome.andThen_of_ok hresult]
    exact ⟨hdone, hlast⟩

end FileStore

/-- A store that has just been opened keeps up with the log. -/
theorem Opening.load_keeps (opening : Opening) {content : Bytes} (h : Shows content xs) :
    (opening.load content).result = .ok () ∧ (opening.load content).state.Keeps xs := by
  obtain ⟨hresult, htaken, -⟩ := FileStore.load_opened h opening.id opening.config opening.path
    opening.frameSize opening.writable
  exact ⟨hresult, _, htaken, .refl _⟩

theorem Opening.follow_keeps (opening : Opening) (hfits : ∀ frame ∈ frames, frame.Fits)
    (hcalm : Frame.Calm frames) (hcuttable : Frame.Cuttable frames) {first : Bytes}
    {chunks : List Bytes} (hinitial : first ++ chunks.flatten <+: bytesOf frames) :
    (opening.follow first chunks).result = .ok () ∧
      ∃ count, (opening.follow first chunks).state.Keeps (whole count frames) := by
  have hfirst : first <+: bytesOf frames := (List.prefix_append _ _).trans hinitial
  obtain ⟨hresult, hkeeps⟩ := opening.load_keeps (Frame.shows_of_prefix hfits hfirst)
  rw [Opening.follow, Outcome.andThen_of_ok hresult]
  exact hkeeps.follow hfits hcalm hcuttable hinitial

/-- Catalogs that hold the same objects answer lookups alike. -/
theorem Catalog.Alike.answer {a b : Catalog} (h : Alike a b) (ha : Coherent a) (hb : Coherent b)
    {query : Query} (hquery : query.IsLookup) : a.answer query = b.answer query := by
  cases query with
  | byId id => simp only [Catalog.answer, h.get?]
  | byKey action group =>
    have hkeys : a.ofKey? = b.ofKey? := funext (h.ofKey? ha hb)
    simp only [Catalog.answer, Catalog.find, hkeys]
  | byHash hash => simp only [Catalog.answer, h.set?]
  | allParameters => exact hquery.elim
  | allSets => exact hquery.elim

/-- What a store answers that has read the first frames of a log. -/
theorem FileStore.HasTaken.ask_unmarked {store : FileStore} {entries : List Entry}
    (h : store.HasTaken xs entries) (hfits : ∀ frame ∈ frames, frame.Fits)
    (hcuttable : Frame.Cuttable frames) (hframes : frames = xs ++ ys) (query : Query) :
    ((store.ask query (bytesOf frames)).result).map Answer.unmarked =
      ((ofEntries (entries ++ given xs ys)).answer query).map Answer.unmarked := by
  have hcontinues := hcuttable xs ys hframes
  have hshows := Frame.shows_bytesOf hfits
  rw [hframes] at hshows ⊢
  rw [h.ask hshows hcontinues, Catalog.answer_after_new]
  change Except.map _ (Except.map _ ((ofEntries _).answer query)) = _
  cases (ofEntries (entries ++ given xs ys)).answer query <;> simp [Except.map]

/-- What a store answers at last is what the whole log holds. -/
theorem FileStore.Keeps.ask {store : FileStore} (h : store.Keeps xs)
    (hfits : ∀ frame ∈ frames, frame.Fits) (hcalm : Frame.Calm frames)
    (hcuttable : Frame.Cuttable frames) (hframes : frames = xs ++ ys) {query : Query}
    (hquery : query.IsLookup) :
    ((store.ask query (bytesOf frames)).result).map Answer.unmarked =
      ((ofEntries ((found frames).map (·.2))).answer query).map Answer.unmarked := by
  obtain ⟨entries, htaken, halike⟩ := h
  have hall : frames = xs ++ ys ++ [] := by rw [List.append_nil, hframes]
  have hgiven := alike_given hcalm hcuttable hall halike
  rw [← hframes] at hgiven
  rw [htaken.ask_unmarked hfits hcuttable hframes query,
    hgiven.answer (Catalog.coherent_ofEntries _) (Catalog.coherent_ofEntries _) hquery]

/-- On a log on which no entry contests anything with one that it encloses, the moments at which a
store reads make no difference. -/
theorem Frame.read_alike_of_calm (hfits : ∀ frame ∈ frames, frame.Fits) (hcalm : Calm frames)
    (hcuttable : Cuttable frames) : ReadAlike frames := by
  intro early fresh first chunks hinitial
  obtain ⟨hearly, count, hkeeps⟩ := early.follow_keeps hfits hcalm hcuttable hinitial
  obtain ⟨hfresh, hwhole⟩ := fresh.load_keeps (shows_bytesOf hfits)
  obtain ⟨rest, hrest⟩ := whole_initial count frames
  refine ⟨hearly, hfresh, fun query hquery => ?_⟩
  rw [hkeeps.ask hfits hcalm hcuttable hrest.symm hquery,
    hwhole.ask hfits hcalm hcuttable (List.append_nil _).symm hquery]

/-! ### Logs of writings -/

/-- Two entries contest something after others have been taken in. -/
def Writing.Contest (us : List Writing) (x y : Writing) : Prop :=
  (ofEntries (us.map (·.entry))).Contested x.entry.content y.entry.content

variable {ws us : List Writing} {x y : Writing}

/-- Items that are found are those of writings. -/
theorem Frame.Interleaves.exists_writings (h : Interleaves frames ws)
    (hws : ∀ w ∈ ws, w.Succeeds) {items : List (Bytes × Entry)}
    (hitems : ∀ item ∈ items, item ∈ found frames) :
    ∃ us : List Writing, (∀ u ∈ us, u ∈ ws) ∧ items = us.map fun u => (u.group, u.entry) := by
  induction items with
  | nil => exact ⟨[], by simp, rfl⟩
  | cons item rest ih =>
    obtain ⟨us, hus, hrest⟩ := ih fun other hother => hitems other (List.mem_cons_of_mem _ hother)
    obtain ⟨w, hw, hitem⟩ := h.found_writing hws (hitems item List.mem_cons_self)
    refine ⟨w :: us, ?_, by rw [List.map_cons, ← hitem, ← hrest]⟩
    intro u hu
    rcases List.mem_cons.mp hu with rfl | hu
    · exact hw
    · exact hus u hu

theorem Frame.Interleaves.calm (h : Interleaves frames ws) (hws : ∀ w ∈ ws, w.Succeeds)
    (hcalm : ∀ us x y, (us ++ [x, y]).Subperm ws → Encloses frames x.group y.group →
      ¬ Writing.Contest us x y) : Calm frames := by
  intro us a b hsub hencloses
  obtain ⟨vs, hvs, hmap⟩ := h.exists_writings hws fun item hitem => hsub.subset hitem
  obtain ⟨others, pair, rfl, rfl, hpair⟩ := List.map_eq_append_iff.mp hmap.symm
  obtain ⟨x, rest, rfl, rfl, hrest⟩ := List.map_eq_cons_iff.mp hpair
  obtain ⟨y, none, rfl, rfl, hnone⟩ := List.map_eq_cons_iff.mp hrest
  obtain rfl := List.map_eq_nil_iff.mp hnone
  have hnodup : (others ++ [x, y]).Nodup := by
    obtain ⟨l, hperm, hsublist⟩ := hsub
    rw [hmap] at hperm
    have hfound := ((hsublist.map (·.1)).nodup (Assembly.found_nodup frames)).of_map
    exact (hperm.nodup_iff.mp hfound).of_map
  have hcontest := hcalm others x y (List.subperm_of_subset hnodup hvs) hencloses
  simpa [Writing.Contest, Function.comp_def] using hcontest

/-! ### The other direction -/

theorem Catalog.Unmarked.map_get? {catalog : Catalog} (h : Unmarked catalog) (id : Bytes) :
    (catalog.get? id).map Parameters.unmarked = catalog.get? id := by
  cases hheld : catalog.get? id with
  | none => rfl
  | some p =>
    have hstore := h.get? hheld
    obtain ⟨pid, action, group, value, store⟩ := p
    obtain rfl : store = none := hstore
    rfl

theorem Catalog.Unmarked.map_set? {catalog : Catalog} (h : Unmarked catalog) (hash : Bytes) :
    (catalog.set? hash).map ParameterSet.unmarked = catalog.set? hash := by
  cases hheld : catalog.set? hash with
  | none => rfl
  | some set =>
    have hstore := h.set? hheld
    obtain ⟨own, members, store⟩ := set
    obtain rfl : store = none := hstore
    rfl

/-- Catalogs that answer lookups alike, up to the marks of stores, hold the same objects. -/
theorem Catalog.alike_of_answer {a b : Catalog} (ha : Unmarked a) (hb : Unmarked b)
    (h : ∀ query : Query, query.IsLookup →
      (a.answer query).map Answer.unmarked = (b.answer query).map Answer.unmarked) :
    Alike a b := by
  constructor
  · intro id
    have hanswer := h (.byId id) trivial
    simp only [Catalog.answer, Except.map, Answer.unmarked, Except.ok.injEq,
      Answer.parameters.injEq] at hanswer
    rw [← ha.map_get?, hanswer, hb.map_get?]
  · intro hash
    have hanswer := h (.byHash hash) trivial
    simp only [Catalog.answer, Except.map, Answer.unmarked, Except.ok.injEq,
      Answer.set.injEq] at hanswer
    rw [← ha.map_set?, hanswer, hb.map_set?]

theorem given_nil_right (xs : List Frame) : given xs [] = [] := by
  have hcontinues : Continues xs [] := fun frame hframe => absurd hframe List.not_mem_nil
  have hnone : (found (xs ++ [])).filter (fun item => Open xs item.1) = [] := by
    rw [List.append_nil, List.filter_eq_nil_iff]
    intro item hitem
    simpa using Assembly.not_open_of_mem_found hitem
  rw [given, Assembly.found_append_right hcontinues, hnone]
  rfl

/-- What a store answers that was opened on the first frames of a log. -/
theorem Opening.ask_unmarked (opening : Opening) (hfits : ∀ frame ∈ frames, frame.Fits)
    (hcuttable : Frame.Cuttable frames) (hframes : frames = xs ++ ys) (query : Query) :
    (((opening.load (bytesOf xs)).state.ask query (bytesOf frames)).result).map Answer.unmarked =
      ((ofEntries ((found xs).map (·.2) ++ given xs ys)).answer query).map Answer.unmarked := by
  have hfitsXs : ∀ frame ∈ xs, frame.Fits := by
    intro frame hframe
    exact hfits frame (hframes ▸ List.mem_append_left _ hframe)
  obtain ⟨-, htaken, -⟩ := FileStore.load_opened (Frame.shows_bytesOf hfitsXs) opening.id
    opening.config opening.path opening.frameSize opening.writable
  exact htaken.ask_unmarked hfits hcuttable hframes query

/-- If stores answer alike whenever they read, then the entries that were read first may be taken
in before those that come behind them. -/
theorem Frame.ReadAlike.alike (h : ReadAlike frames) (hfits : ∀ frame ∈ frames, frame.Fits)
    (hcuttable : Cuttable frames) (hframes : frames = xs ++ ys) :
    Alike (ofEntries ((found xs).map (·.2) ++ given xs ys))
      (ofEntries ((found frames).map (·.2))) := by
  have hinitial : bytesOf xs ++ ([] : List Bytes).flatten <+: bytesOf frames := by
    rw [hframes, bytesOf_append, List.flatten_nil, List.append_nil]
    exact List.prefix_append _ _
  obtain ⟨-, -, hanswers⟩ := h default default (bytesOf xs) [] hinitial
  refine Catalog.alike_of_answer ((Catalog.unmarked_new []).after _)
    ((Catalog.unmarked_new []).after _) fun query hquery => ?_
  have hearly := Opening.ask_unmarked default hfits hcuttable hframes query
  have hfresh := Opening.ask_unmarked default hfits hcuttable (List.append_nil frames).symm query
  rw [given_nil_right, List.append_nil] at hfresh
  have hstate : ((default : Opening).follow (bytesOf xs) []).state =
      ((default : Opening).load (bytesOf xs)).state := Outcome.state_andThen _ fun _ _ => rfl
  have hboth := hanswers query hquery
  rw [hstate] at hboth
  exact hearly.symm.trans (hboth.trans hfresh)

/-- Stores answer alike on a log on which an entry encloses another only if the two contest
nothing. -/
theorem not_contest_of_read_alike (h : Writing.Apart (us ++ [x, y])) (hlong : 2 ≤ x.row.length)
    (hread : Frame.ReadAlike (enclosing us x y)) : ¬ Writing.Contest us x y := by
  have hinterleaves := interleaves_enclosing_log h
  have hframes : enclosing us x y = rowsOf us ++ (x.row.take 1 ++ y.row) ++ x.row.drop 1 := by
    simp [enclosing]
  have halike := hread.alike (hinterleaves.fits h.succeed) (hinterleaves.cuttable h.succeed) hframes
  have hexchange : Alike (ofEntries (us.map (·.entry) ++ [y.entry, x.entry]))
      (ofEntries (us.map (·.entry) ++ [x.entry, y.entry])) := by
    rw [found_before_rest h hlong, given_rest h hlong, found_enclosing_log h hlong] at halike
    simpa [Function.comp_def] using halike
  exact (Catalog.alike_exchange_iff (us.map (·.entry)) x.entry y.entry).mp hexchange.symm

/-- When the moments at which a store reads make no difference. On any one log they make none if no
entry contests anything with an entry that it encloses. For the logs of a kind of writings they make
none exactly if no two of them contest anything after others, of which the first takes more than one
frame. -/
theorem Frame.read_alike_iff (allowed : Writing → Prop) :
    (∀ ws frames, Writing.Apart ws → Interleaves frames ws →
      (∀ us x y, (us ++ [x, y]).Subperm ws → Encloses frames x.group y.group →
        ¬ Writing.Contest us x y) → ReadAlike frames) ∧
    ((∀ ws frames, Writing.Apart ws → (∀ w ∈ ws, allowed w) → Interleaves frames ws →
      ReadAlike frames) ↔
        ∀ us x y, Writing.Apart (us ++ [x, y]) → (∀ w ∈ us ++ [x, y], allowed w) →
          2 ≤ x.row.length → ¬ Writing.Contest us x y) := by
  have hlog (ws : List Writing) (frames : List Frame) (hws : Writing.Apart ws)
      (h : Interleaves frames ws)
      (hcalm : ∀ us x y, (us ++ [x, y]).Subperm ws → Encloses frames x.group y.group →
        ¬ Writing.Contest us x y) : ReadAlike frames :=
    read_alike_of_calm (h.fits hws.succeed) (h.calm hws.succeed hcalm) (h.cuttable hws.succeed)
  refine ⟨hlog, fun hall us x y hapart hallowed hlong => ?_,
    fun hnone ws frames hws hallowed h => ?_⟩
  · exact not_contest_of_read_alike hapart hlong
      (hall _ _ hapart hallowed (interleaves_enclosing_log hapart))
  · apply hlog ws frames hws h
    intro us x y hsub hencloses
    have hx : x ∈ ws := hsub.subset (by simp)
    exact hnone us x y (hws.subperm hsub) (fun w hw => hallowed w (hsub.subset hw))
      (h.two_le_of_encloses hx hencloses)

/-- Stores do not answer alike when parameters of one key lie between the frames of others. -/
theorem not_read_alike_of_key (h : Writing.Apart [x, y]) (hlong : 2 ≤ x.row.length)
    {p q : Parameters} {key : LookupKey} (hx : x.entry.content = .parameters p key)
    (hy : y.entry.content = .parameters q key) (hne : p ≠ q) :
    ¬ Frame.ReadAlike (enclosing [] x y) := by
  intro hread
  have hnot : ¬ Writing.Contest [] x y := not_contest_of_read_alike h hlong hread
  have hroom (id : Bytes) : (ofEntries []).hasRoom id key = true := rfl
  rw [Writing.Contest, hx, hy] at hnot
  exact hnot ⟨hne, .inr rfl, hroom _, hroom _⟩

/-- An entry that takes several frames. -/
def slow : Writing :=
  ⟨.opened "l" 100 true, ⟨.parameters, [1], (Parameters.sample 1).toBytes⟩,
    [0, 1, 2, 3, 4, 5, 6, 7, 8, 9, 10, 11, 12, 13, 14, 15]⟩

/-- An entry for the same key in one frame. -/
def quick : Writing :=
  ⟨.opened "l" 400 true, ⟨.parameters, [2], (Parameters.sample 2).toBytes⟩,
    [16, 17, 18, 19, 20, 21, 22, 23, 24, 25, 26, 27, 28, 29, 30, 31]⟩

/-- Of two entries for one key, the one that begins first wins for a store that reads the whole log,
and the one that is complete first for a store that reads in between. -/
theorem winner_depends_on_reading_time :
    Writing.Apart [slow, quick] ∧ Interleaves (enclosing [] slow quick) [slow, quick] ∧
      ¬ Frame.ReadAlike (enclosing [] slow quick) := by
  have hapart : Writing.Apart [slow, quick] := by
    refine ⟨fun w hw => ?_, by decide⟩
    rcases List.mem_cons.mp hw with rfl | hw
    · rw [Writing.Succeeds]
      decide +kernel
    · rw [List.mem_singleton.mp hw, Writing.Succeeds]
      decide +kernel
  have hlong : 2 ≤ slow.row.length := by decide +kernel
  have hne : Parameters.sample 1 ≠ Parameters.sample 2 := by
    intro heq
    have hid : ([1] : Bytes) = [2] := congrArg Parameters.id heq
    simp at hid
  have hinterleaves : Interleaves (enclosing [] slow quick) ([] ++ [slow, quick]) :=
    interleaves_enclosing_log hapart
  exact ⟨hapart, hinterleaves, not_read_alike_of_key hapart hlong
    (Entry.content_parameters Parameters.readable_sample_one rfl rfl)
    (Entry.content_parameters Parameters.readable_sample_two rfl rfl) hne⟩

end ParameterLog
