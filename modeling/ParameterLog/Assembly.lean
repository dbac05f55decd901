/-
Module: ParameterLog.Assembly
Purpose: entries put together again from frames that may be interleaved.
Main exports: Contradiction, Verdict, Verdict.ofGroup, Assembly, Assembly.ofFrames
-/
import ParameterLog.Event
import ParameterLog.Frame

/-!
Frames with one grouping identifier form a group; groups stand in the order of their first frames. A
group whose frames agree on their number and have the indices from zero up to that number, each
once, is complete: its data, in the order of the indices, is the binary form of an entry. A group
that can still become complete waits for more frames. A group that cannot is dropped, and so is a
complete one whose bytes are no entry; both are reported.
-/

namespace ParameterLog

/-- Why no further frames can complete a group. -/
inductive Contradiction where
  | zeroTotal
  | totalsDisagree
  | tooManyFrames
  | repeatedIndex
deriving Repr, DecidableEq

/-- The wording of a contradiction. -/
def Contradiction.message : Contradiction → String
  | .zeroTotal => "frame count is zero"
  | .totalsDisagree => "frames disagree on frame count"
  | .tooManyFrames => "more frames than announced"
  | .repeatedIndex => "duplicate frame index"

/-- What the frames of a group amount to. -/
inductive Verdict where
  | complete (bytes : Bytes)
  | incomplete
  | contradictory (reason : Contradiction)
deriving Repr, DecidableEq

namespace Frame

/-- The grouping identifiers of frames in the order of their first frames. -/
def groupIds (frames : List Frame) : List Bytes := (frames.map (·.group)).eraseDups

/-- The frames of a group in their order. -/
def ofGroup (frames : List Frame) (id : Bytes) : List Frame := frames.filter (·.group == id)

/-- Frames in the order of their indices; frames with one index keep their order. -/
def byIndex (frames : List Frame) : List Frame :=
  frames.mergeSort fun a b => decide (a.index ≤ b.index)

end Frame

/-- Whether two neighbours in a list are equal. -/
def repeats : List Nat → Bool
  | a :: b :: rest => a == b || repeats (b :: rest)
  | _ => false

/-- What a group amounts to. -/
def Verdict.ofGroup (group : List Frame) : Verdict :=
  let total := (group.head?.map (·.total.toNat)).getD 0
  if total = 0 then .contradictory .zeroTotal
  else if group.any (·.total.toNat ≠ total) then .contradictory .totalsDisagree
  else if total < group.length then .contradictory .tooManyFrames
  else
    let sorted := Frame.byIndex group
    let indices := sorted.map (·.index.toNat)
    if repeats indices then .contradictory .repeatedIndex
    else if indices = List.range total then .complete (sorted.flatMap (·.data))
    else .incomplete

/-- What becomes of a group. -/
inductive Resolution where
  /-- It is an entry. -/
  | entry (entry : Entry)
  /-- It waits for more frames. -/
  | waiting (frames : List Frame)
  /-- It is dropped and reported. -/
  | dropped (report : Event)
deriving Repr, DecidableEq

namespace Resolution

/-- What becomes of the group with an identifier. -/
def ofGroup (id : Bytes) (group : List Frame) : Resolution :=
  match Verdict.ofGroup group with
  | .complete bytes =>
    match Entry.decode bytes with
    | .ok found => .entry found
    | .error e => .dropped (.undecodableEntry id e)
  | .incomplete => .waiting (Frame.byIndex group)
  | .contradictory reason => .dropped (.inconsistentGroup id reason.message)

/-- The entry that a group turned out to be. -/
def decoded? : Resolution → Option Entry
  | .entry found => some found
  | _ => none

/-- The frames that a group keeps waiting. -/
def frames : Resolution → List Frame
  | .waiting kept => kept
  | _ => []

/-- The report about a dropped group. -/
def report? : Resolution → Option Event
  | .dropped report => some report
  | _ => none

end Resolution

/-- Entries put together from frames. -/
structure Assembly where
  /-- The entries, in the order of their first frames. -/
  entries : List Entry
  /-- The frames of groups that are not complete yet, group by group, in the order of their
  indices. -/
  remaining : List Frame
  events : List Event
deriving Repr, DecidableEq

namespace Assembly

/-- What becomes of each group of some frames. -/
def resolutions (frames : List Frame) : List Resolution :=
  (Frame.groupIds frames).map fun id => Resolution.ofGroup id (Frame.ofGroup frames id)

/-- Puts frames together. -/
def ofFrames (frames : List Frame) : Assembly :=
  let resolved := resolutions frames
  let entries := resolved.filterMap Resolution.decoded?
  let remaining := resolved.flatMap Resolution.frames
  ⟨entries, remaining,
    resolved.filterMap Resolution.report? ++ [.reassembled entries.length remaining.length]⟩

end Assembly
end ParameterLog
