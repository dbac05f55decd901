/-
Module: ParameterLog.Proofs.SharedLog
Purpose: programs that work on one log, step by step and in any order.
Main exports: Saving, SharedLog, SharedLog.Move, SharedLog.Note, SharedLog.step, SharedLog.run,
  SharedLog.Effect, SharedLog.effect_step
-/
import ParameterLog.Proofs.StoreReading

/-!
A log is shared by any number of sites, each of which may run a program with a store of its own.
The steps of the programs come in any order. A save takes three of them: it checks, it appends its
record in one piece, and it confirms by reading the log again. Between any two of them other sites
may do whatever they like, and so may programs that are no stores: they append frames (`appendRow`).

What has been appended last may still be on its way: readers see the bytes before `arriving` only.
Appending waits until nothing is on its way, and a program sees its own record before it confirms. A
move for which a site is not ready does nothing.
-/

namespace ParameterLog

/-- What a program saves. -/
inductive Saving where
  | parameters (p : Parameters)
  | set (set : ParameterSet)
deriving Inhabited

namespace Saving

/-- The record that is appended. -/
def record : Saving → Entry
  | .parameters p => ⟨.parameters, p.id, p.toBytes⟩
  | .set s => ⟨.parameterSet, s.hash, s.toBytes⟩

/-- The first step: says whether there is a place. -/
def check (content : Bytes) (store : FileStore) : Saving → Outcome FileStore Bool
  | .parameters p => store.check p content
  | .set s => store.checkSet s content

/-- The last step: says whether the record that was appended has won. -/
def confirm (content : Bytes) (store : FileStore) : Saving → Outcome FileStore Bool
  | .parameters p => store.confirm p content
  | .set s => store.confirmSet s content

end Saving

/-- How far a program is with a save. -/
inductive Task where
  | idle
  /-- There was a place when the program looked. -/
  | placed (saving : Saving)
  /-- The record has been appended and ends at an offset. -/
  | written (saving : Saving) (upTo : Nat)
deriving Inhabited

/-- What a program is in the middle of saving. -/
def Task.saving? : Task → Option Saving
  | .idle => none
  | .placed saving => some saving
  | .written saving _ => some saving

/-- A program with a store. -/
structure Site where
  store : FileStore
  task : Task
deriving Inhabited

/-- A log and the programs that work on it. -/
structure SharedLog where
  /-- What readers see of the log. -/
  content : Bytes
  /-- What has been appended and is on its way. -/
  arriving : Bytes
  sites : Nat → Option Site

namespace SharedLog

/-- What can happen next. -/
inductive Move where
  | openStore (site : Nat) (id : StoreId) (config : Json.Members) (path : String) (frameSize : Nat)
    (writable : Bool)
  | check (site : Nat) (saving : Saving)
  | append (site : Nat) (group : Bytes)
  | confirm (site : Nat)
  | ask (site : Nat) (query : Query)
  | appendRow (row : List Frame)
  | arrive (count : Nat)
deriving Inhabited

/-- What a program learns from a move. -/
inductive Note where
  | opened (site : Nat) (result : Except StoreError Unit)
  | saved (site : Nat) (saving : Saving) (result : Except StoreError Bool)
  | answered (site : Nat) (query : Query) (result : Except StoreError Answer)
deriving Inhabited

/-- Puts a program in a site. -/
def place (log : SharedLog) (site : Nat) (program : Site) : SharedLog :=
  { log with sites := fun other => if other = site then some program else log.sites other }

/-- Opens a store on what readers see; a frame size that is out of bounds is refused. -/
def openStore (log : SharedLog) (site : Nat) (id : StoreId) (config : Json.Members)
    (path : String) (frameSize : Nat) (writable : Bool) : SharedLog × List Note :=
  match Frame.capacity frameSize with
  | .error e => (log, [.opened site (.error e)])
  | .ok _ =>
    let loaded := FileStore.load id config (.opened path frameSize writable) log.content
    match loaded.result with
    | .error e => (log, [.opened site (.error e)])
    | .ok () => (log.place site ⟨loaded.state, .idle⟩, [.opened site (.ok ())])

/-- Begins a save. -/
def check (log : SharedLog) (site : Nat) (saving : Saving) : SharedLog × List Note :=
  match log.sites site with
  | some ⟨store, .idle⟩ =>
    let checked := saving.check log.content store
    match checked.result with
    | .ok true => (log.place site ⟨checked.state, .placed saving⟩, [])
    | other => (log.place site ⟨checked.state, .idle⟩, [.saved site saving other])
  | _ => (log, [])

/-- Appends the record of a save under a group. -/
def append (log : SharedLog) (site : Nat) (group : Bytes) : SharedLog × List Note :=
  match log.sites site with
  | some ⟨store, .placed saving⟩ =>
    if log.arriving = [] then
      let record := saving.record
      let appended := store.append record.kind record.id record.data group log.content
      match appended.result with
      | .ok () =>
        ({ log with arriving := appended.state.drop log.content.length }.place site
          ⟨store, .written saving appended.state.length⟩, [])
      | .error e => (log.place site ⟨store, .idle⟩, [.saved site saving (.error e)])
    else (log, [])
  | _ => (log, [])

/-- Ends a save whose record has arrived. -/
def confirm (log : SharedLog) (site : Nat) : SharedLog × List Note :=
  match log.sites site with
  | some ⟨store, .written saving upTo⟩ =>
    if upTo ≤ log.content.length then
      let confirmed := saving.confirm log.content store
      (log.place site ⟨confirmed.state, .idle⟩, [.saved site saving confirmed.result])
    else (log, [])
  | _ => (log, [])

/-- Asks a store. -/
def ask (log : SharedLog) (site : Nat) (query : Query) : SharedLog × List Note :=
  match log.sites site with
  | some program =>
    let asked := program.store.ask query log.content
    (log.place site { program with store := asked.state }, [.answered site query asked.result])
  | none => (log, [])

/-- Makes a move. -/
def step (log : SharedLog) : Move → SharedLog × List Note
  | .openStore site id config path frameSize writable =>
    log.openStore site id config path frameSize writable
  | .check site saving => log.check site saving
  | .append site group => log.append site group
  | .confirm site => log.confirm site
  | .ask site query => log.ask site query
  | .appendRow row =>
    if log.arriving = [] then ({ log with arriving := Frame.bytesOf row }, []) else (log, [])
  | .arrive count =>
    ({ log with
        content := log.content ++ log.arriving.take count
        arriving := log.arriving.drop count }, [])

/-- Makes moves one after the other. -/
def run : SharedLog → List Move → SharedLog × List Note
  | log, [] => (log, [])
  | log, move :: rest =>
    let (next, notes) := log.step move
    let (last, more) := run next rest
    (last, notes ++ more)

/-- A log of frames that no program works on. -/
def start (base : List Frame) : SharedLog := ⟨Frame.bytesOf base, [], fun _ => none⟩

@[simp] theorem run_nil (log : SharedLog) : log.run [] = (log, []) := rfl

@[simp] theorem run_cons (log : SharedLog) (move : Move) (rest : List Move) :
    log.run (move :: rest) =
      (((log.step move).1.run rest).1, (log.step move).2 ++ ((log.step move).1.run rest).2) := rfl

theorem sites_place (log : SharedLog) (site other : Nat) (program : Site) :
    (log.place site program).sites other =
      if other = site then some program else log.sites other := rfl

@[simp] theorem sites_place_self (log : SharedLog) (site : Nat) (program : Site) :
    (log.place site program).sites site = some program := by
  simp [sites_place]

/-- Putting a program in a site leaves the others where they are. -/
theorem sites_place_cases {log : SharedLog} {site other : Nat} {program found : Site}
    (h : (log.place site program).sites other = some found) :
    (other = site ∧ found = program) ∨ (other ≠ site ∧ log.sites other = some found) := by
  rw [sites_place] at h
  split at h
  · next heq => exact .inl ⟨heq, (Option.some.inj h).symm⟩
  · next hne => exact .inr ⟨hne, h⟩

@[simp] theorem content_place (log : SharedLog) (site : Nat) (program : Site) :
    (log.place site program).content = log.content := rfl

@[simp] theorem arriving_place (log : SharedLog) (site : Nat) (program : Site) :
    (log.place site program).arriving = log.arriving := rfl

/-! ### What a move can do -/

/-- All that a move can lead to. -/
inductive Effect (log : SharedLog) : Move → SharedLog → List Note → Prop where
  /-- The site is not ready, or the log is not. -/
  | none (move : Move) : Effect log move log []
  | refused (site : Nat) (id : StoreId) (config : Json.Members) (path : String) {frameSize : Nat}
      (writable : Bool) {e : StoreError}
      (cause : Frame.capacity frameSize = .error e ∨
        (FileStore.load id config (.opened path frameSize writable) log.content).result =
          .error e) :
      Effect log (.openStore site id config path frameSize writable) log [.opened site (.error e)]
  | opened (site : Nat) (id : StoreId) (config : Json.Members) (path : String) {frameSize : Nat}
      (writable : Bool) {capacity : Nat} (bounded : Frame.capacity frameSize = .ok capacity) :
      Effect log (.openStore site id config path frameSize writable)
        (log.place site
          ⟨(FileStore.load id config (.opened path frameSize writable) log.content).state, .idle⟩)
        [.opened site (.ok ())]
  | checked {site : Nat} {store : FileStore} (saving : Saving)
      (ready : log.sites site = some ⟨store, .idle⟩)
      (result : (saving.check log.content store).result = .ok true) :
      Effect log (.check site saving)
        (log.place site ⟨(saving.check log.content store).state, .placed saving⟩) []
  | turnedAway {site : Nat} {store : FileStore} (saving : Saving)
      (ready : log.sites site = some ⟨store, .idle⟩)
      (result : (saving.check log.content store).result ≠ .ok true) :
      Effect log (.check site saving)
        (log.place site ⟨(saving.check log.content store).state, .idle⟩)
        [.saved site saving (saving.check log.content store).result]
  | appended {site : Nat} {store : FileStore} {saving : Saving} {group : Bytes} {row : List Frame}
      (ready : log.sites site = some ⟨store, .placed saving⟩) (quiet : log.arriving = [])
      (split : saving.record.frames group store.log.frameSize = .ok row)
      (fits : ∀ frame ∈ row, frame.Fits) :
      Effect log (.append site group)
        ({ log with arriving := Frame.bytesOf row }.place site
          ⟨store, .written saving (log.content ++ Frame.bytesOf row).length⟩) []
  | failed {site : Nat} {store : FileStore} {saving : Saving} {group : Bytes} {e : StoreError}
      (ready : log.sites site = some ⟨store, .placed saving⟩)
      (result : (store.append saving.record.kind saving.record.id saving.record.data group
        log.content).result = .error e) :
      Effect log (.append site group) (log.place site ⟨store, .idle⟩)
        [.saved site saving (.error e)]
  | confirmed {site : Nat} {store : FileStore} {saving : Saving} {upTo : Nat}
      (ready : log.sites site = some ⟨store, .written saving upTo⟩)
      (there : upTo ≤ log.content.length) :
      Effect log (.confirm site)
        (log.place site ⟨(saving.confirm log.content store).state, .idle⟩)
        [.saved site saving (saving.confirm log.content store).result]
  | asked {site : Nat} {program : Site} (query : Query) (ready : log.sites site = some program) :
      Effect log (.ask site query)
        (log.place site { program with store := (program.store.ask query log.content).state })
        [.answered site query (program.store.ask query log.content).result]
  | appendedRow (row : List Frame) (quiet : log.arriving = []) :
      Effect log (.appendRow row) { log with arriving := Frame.bytesOf row } []
  | arrived (count : Nat) :
      Effect log (.arrive count)
        { log with
          content := log.content ++ log.arriving.take count
          arriving := log.arriving.drop count } []

end SharedLog

/-- A record that has been appended was cut into frames that fit, and their bytes stand behind what
was there. -/
theorem FileStore.append_eq_ok {store : FileStore} {record : Entry} {group content : Bytes}
    (h : (store.append record.kind record.id record.data group content).result = .ok ()) :
    ∃ row, record.frames group store.log.frameSize = .ok row ∧ (∀ frame ∈ row, frame.Fits) ∧
      (store.append record.kind record.id record.data group content).state =
        content ++ Frame.bytesOf row := by
  have hwrite : (store.log.write record group content).result = .ok () := by
    cases hresult : (store.log.write record group content).result with
    | ok answer => rfl
    | error e =>
      have hfailed : (store.append record.kind record.id record.data group content).result =
          .error e := by
        simp only [append]
        rw [Outcome.andThen_of_error hresult]
      rw [hfailed] at h
      simp at h
  obtain ⟨row, hrow, hfits, -, hstate⟩ := Log.write_eq_ok hwrite
  refine ⟨row, hrow, hfits, ?_⟩
  simp only [append]
  rw [Outcome.andThen_of_ok hwrite]
  exact hstate

namespace SharedLog

theorem effect_openStore (log : SharedLog) (site : Nat) (id : StoreId) (config : Json.Members)
    (path : String) (frameSize : Nat) (writable : Bool) :
    Effect log (.openStore site id config path frameSize writable)
      (log.openStore site id config path frameSize writable).1
      (log.openStore site id config path frameSize writable).2 := by
  unfold openStore
  cases hcapacity : Frame.capacity frameSize with
  | error e => exact .refused site id config path writable (.inl hcapacity)
  | ok capacity =>
    dsimp only
    cases hresult : (FileStore.load id config (.opened path frameSize writable)
        log.content).result with
    | error e => exact .refused site id config path writable (.inr hresult)
    | ok answer => exact .opened site id config path writable hcapacity

theorem effect_check (log : SharedLog) (site : Nat) (saving : Saving) :
    Effect log (.check site saving) (log.check site saving).1 (log.check site saving).2 := by
  unfold check
  split
  · next store hready =>
    dsimp only
    split
    · next hresult => exact .checked saving hready hresult
    · next hresult => exact .turnedAway saving hready hresult
  · exact .none _

theorem effect_append (log : SharedLog) (site : Nat) (group : Bytes) :
    Effect log (.append site group) (log.append site group).1 (log.append site group).2 := by
  unfold append
  split
  · next store saving hready =>
    split
    · next hquiet =>
      dsimp only
      split
      · next hresult =>
        obtain ⟨row, hframes, hfits, hstate⟩ := FileStore.append_eq_ok hresult
        rw [hstate, List.drop_left]
        exact .appended hready hquiet hframes hfits
      · next e hresult => exact .failed hready hresult
    · exact .none _
  · exact .none _

theorem effect_confirm (log : SharedLog) (site : Nat) :
    Effect log (.confirm site) (log.confirm site).1 (log.confirm site).2 := by
  unfold confirm
  split
  · next store saving upTo hready =>
    split
    · next hthere => exact .confirmed hready hthere
    · exact .none _
  · exact .none _

theorem effect_ask (log : SharedLog) (site : Nat) (query : Query) :
    Effect log (.ask site query) (log.ask site query).1 (log.ask site query).2 := by
  unfold ask
  split
  · next program hready => exact .asked query hready
  · exact .none _

/-- A move leads to one of its effects. -/
theorem effect_step (log : SharedLog) (move : Move) :
    Effect log move (log.step move).1 (log.step move).2 := by
  cases move with
  | openStore site id config path frameSize writable =>
    exact effect_openStore log site id config path frameSize writable
  | check site saving => exact effect_check log site saving
  | append site group => exact effect_append log site group
  | confirm site => exact effect_confirm log site
  | ask site query => exact effect_ask log site query
  | appendRow row =>
    simp only [step]
    split
    · next hquiet => exact .appendedRow row hquiet
    · exact .none _
  | arrive count => exact .arrived count

/-- What readers have seen stays. -/
theorem length_content_step (log : SharedLog) (move : Move) :
    log.content.length ≤ (log.step move).1.content.length := by
  have heffect := log.effect_step move
  generalize (log.step move).1 = after, (log.step move).2 = notes at heffect ⊢
  cases heffect with
  | arrived count => simp
  | _ => exact Nat.le_refl _

end SharedLog
end ParameterLog
