/-
Module: ParameterLog.Proofs.SetRevisions
Purpose: what is left of a set when its members are replaced and its hash is computed anew.
Main exports: ParameterSet.Revision, ParameterSet.revise, ParameterSet.revised,
  ParameterSet.RevisesWholly, ParameterSet.named_revised, ParameterSet.revisesWholly_iff,
  ParameterSet.revises_wholly_along_iff
-/
import ParameterLog.Proofs.MemberHashes

/-!
A revision of a set ends by computing the hash anew, unless it finds no member to replace and then
changes nothing. So whatever becomes of a set, its hash names its members as soon as all of them
have identifiers (`named_revised`).

The new hash is the last thing, though, and it can fail. A replacement without an identifier is in
its place by then and is not taken back: the revision fails, the members have changed and the hash
has not. Nothing else goes wrong. Which actions the members are for never changes, so it can be told
from the members that a set was made of whether a run of revisions leaves it whole: exactly if each
replacement for one of their actions has an identifier (`revises_wholly_along_iff`).
-/

namespace ParameterLog

namespace ParameterSet

/-- A change of a set by its owner. -/
inductive Revision where
  | replace (p : Parameters)
  | rehash
deriving Repr, Inhabited

/-- Revises a set. -/
def revise (set : ParameterSet) : Revision → Except StoreError Unit × ParameterSet
  | .replace p => set.replace p
  | .rehash => set.rehash

/-- The set after revisions, one after the other, whether they fail or not. -/
def revised (set : ParameterSet) (revisions : List Revision) : ParameterSet :=
  revisions.foldl (fun set revision => (set.revise revision).2) set

/-- What one revision and each revision of a run keeps, the run keeps. -/
theorem holds_revised {P : ParameterSet → Prop} {set : ParameterSet} {revisions : List Revision}
    (hstart : P set)
    (hstep : ∀ before last, before ++ [last] <+: revisions → P (set.revised before) →
      P ((set.revised before).revise last).2) :
    ∀ before, before <+: revisions → P (set.revised before) :=
  holds_along_foldl hstart hstep

/-- All members have identifiers. -/
def Identified (set : ParameterSet) : Prop := ∀ p ∈ set.members, p.id ≠ []

/-- The hash is that of the members' identifiers, if they all have one. -/
def Named (set : ParameterSet) : Prop := set.Identified → set.hash = (hashInput set.ids).blake3

/-- Some member is for the action of the parameters. -/
def Concerns (set : ParameterSet) (p : Parameters) : Prop :=
  ∃ member ∈ set.members, member.action.id = p.action.id

/-- Parameters that replace a member have an identifier. -/
def Fits (set : ParameterSet) (revision : Revision) : Prop :=
  ∀ p, revision = .replace p → set.Concerns p → p.id ≠ []

/-- A revision leaves a set whose hash is that of its members' identifiers, and if it fails, the set
is as before. -/
structure RevisesWholly (set : ParameterSet) (revision : Revision) : Prop where
  named : (set.revise revision).2.hash = (hashInput (set.revise revision).2.ids).blake3
  kept : ∀ e, (set.revise revision).1 = .error e →
    (set.revise revision).2.hash = set.hash ∧ (set.revise revision).2.members = set.members

variable {set : ParameterSet}

/-! ### What one revision does -/

theorem hashOf_of_unidentified {members : List Parameters} (h : ∃ p ∈ members, p.id = []) :
    hashOf members = .error (.missingId "parameters") := by
  rw [hashOf, if_pos]
  simpa using h

/-- The hash can be computed anew just if all members have identifiers. -/
theorem rehash_cases (set : ParameterSet) :
    (set.Identified ∧
      set.rehash = (.ok (), { set with hash := (hashInput set.ids).blake3 })) ∨
    (¬ set.Identified ∧ set.rehash = (.error (.missingId "parameters"), set)) := by
  by_cases h : set.Identified
  · refine .inl ⟨h, ?_⟩
    rw [rehash, hashOf_of_identified h]
    rfl
  · refine .inr ⟨h, ?_⟩
    simp only [Identified, not_forall, not_not] at h
    obtain ⟨p, hp, hid⟩ := h
    rw [rehash, hashOf_of_unidentified ⟨p, hp, hid⟩]

theorem members_rehash (set : ParameterSet) : set.rehash.2.members = set.members := by
  rcases rehash_cases set with ⟨-, heq⟩ | ⟨-, heq⟩ <;> rw [heq]

theorem named_rehash (set : ParameterSet) : set.rehash.2.Named := by
  rcases rehash_cases set with ⟨-, heq⟩ | ⟨hnot, heq⟩
  · rw [heq]
    exact fun _ => rfl
  · rw [heq]
    exact fun h => absurd h hnot

/-- Parameters take the place of a member for the same action, if there is one. -/
theorem substitute_cases (p : Parameters) (members : List Parameters) :
    ((∀ member ∈ members, member.action.id ≠ p.action.id) ∧ substitute p members = none) ∨
    ∃ front member rest, members = front ++ member :: rest ∧ member.action.id = p.action.id ∧
      substitute p members = some (front ++ p :: rest) := by
  induction members with
  | nil => exact .inl ⟨by simp, rfl⟩
  | cons head tail ih =>
    by_cases hsame : head.action.id = p.action.id
    · refine .inr ⟨[], head, tail, rfl, hsame, ?_⟩
      rw [substitute, if_pos hsame]
      rfl
    · rcases ih with ⟨hnone, heq⟩ | ⟨front, member, rest, rfl, haction, heq⟩
      · refine .inl ⟨List.forall_mem_cons.mpr ⟨hsame, hnone⟩, ?_⟩
        rw [substitute, if_neg hsame, heq]
        rfl
      · refine .inr ⟨head :: front, member, rest, rfl, haction, ?_⟩
        rw [substitute, if_neg hsame, heq]
        rfl

/-- A replacement either finds no member for its action and changes nothing, or it takes the place
of one and the hash is computed anew. -/
theorem replace_cases (set : ParameterSet) (p : Parameters) :
    (¬ set.Concerns p ∧ set.replace p = (.error (.malformedRecord .actionNotInSet), set)) ∨
    (set.Concerns p ∧ ∃ front member rest, set.members = front ++ member :: rest ∧
      member.action.id = p.action.id ∧
      set.replace p = rehash { set with members := front ++ p :: rest }) := by
  rcases substitute_cases p set.members with
    ⟨hnone, heq⟩ | ⟨front, member, rest, hmembers, haction, heq⟩
  · refine .inl ⟨?_, ?_⟩
    · rintro ⟨member, hmember, haction⟩
      exact hnone member hmember haction
    · rw [replace, heq]
  · refine .inr ⟨⟨member, ?_, haction⟩, front, member, rest, hmembers, haction, ?_⟩
    · rw [hmembers]
      exact List.mem_append_right _ List.mem_cons_self
    · rw [replace, heq]

/-- A revision does not change which actions the members are for. -/
theorem actions_revise (set : ParameterSet) (revision : Revision) :
    (set.revise revision).2.members.map (·.action.id) = set.members.map (·.action.id) := by
  cases revision with
  | rehash => rw [revise, members_rehash]
  | replace p =>
    rcases replace_cases set p with ⟨-, heq⟩ | ⟨-, front, member, rest, hmembers, haction, heq⟩
    · rw [revise, heq]
    · rw [revise, heq, members_rehash, hmembers]
      simp [haction]

theorem Named.revise (h : set.Named) (revision : Revision) : (set.revise revision).2.Named := by
  cases revision with
  | rehash => exact named_rehash set
  | replace p =>
    rcases replace_cases set p with ⟨-, heq⟩ | ⟨-, _, _, _, -, -, heq⟩
    · rwa [ParameterSet.revise, heq]
    · rw [ParameterSet.revise, heq]
      exact named_rehash _

theorem Identified.revise (h : set.Identified) {revision : Revision} (hfits : set.Fits revision) :
    (set.revise revision).2.Identified := by
  cases revision with
  | rehash => rwa [ParameterSet.revise, Identified, members_rehash]
  | replace p =>
    rcases replace_cases set p with ⟨-, heq⟩ | ⟨hconcerns, front, member, rest, hmembers, -, heq⟩
    · rwa [ParameterSet.revise, heq]
    · rw [Identified, hmembers, List.forall_mem_append, List.forall_mem_cons] at h
      rw [ParameterSet.revise, heq, Identified, members_rehash, List.forall_mem_append,
        List.forall_mem_cons]
      exact ⟨h.1, hfits p rfl hconcerns, h.2.2⟩

/-- A revision that fits fails only if it changes nothing. -/
theorem kept_of_fits (h : set.Identified) {revision : Revision} (hfits : set.Fits revision)
    {e : StoreError} (hfailed : (set.revise revision).1 = .error e) :
    (set.revise revision).2 = set := by
  have hidentified := h.revise hfits
  cases revision with
  | rehash =>
    rcases rehash_cases set with ⟨-, heq⟩ | ⟨hnot, -⟩
    · rw [revise, heq] at hfailed
      contradiction
    · exact absurd h hnot
  | replace p =>
    rcases replace_cases set p with ⟨-, heq⟩ | ⟨-, front, member, rest, -, -, heq⟩
    · rw [revise, heq]
    · rw [revise, heq, Identified, members_rehash] at hidentified
      rw [revise, heq] at hfailed
      rcases rehash_cases { set with members := front ++ p :: rest } with ⟨-, hok⟩ | ⟨hnot, -⟩
      · rw [hok] at hfailed
        contradiction
      · exact absurd hidentified hnot

/-- A replacement without an identifier takes a member's place although it fails. -/
theorem replace_unidentified (h : set.Identified) {p : Parameters} (hconcerns : set.Concerns p)
    (hid : p.id = []) :
    (set.replace p).1 = .error (.missingId "parameters") ∧ (set.replace p).2.hash = set.hash ∧
      (set.replace p).2.members ≠ set.members := by
  rcases replace_cases set p with ⟨hnot, -⟩ | ⟨-, front, member, rest, hmembers, -, heq⟩
  · exact absurd hconcerns hnot
  · have hplaced : p ∈ front ++ p :: rest := List.mem_append_right _ List.mem_cons_self
    rcases rehash_cases { set with members := front ++ p :: rest } with ⟨hall, -⟩ | ⟨-, hfailed⟩
    · exact absurd hid (hall p hplaced)
    -- All members had identifiers, so the parameters were none of them.
    · rw [heq, hfailed]
      refine ⟨rfl, rfl, fun hsame => ?_⟩
      exact h p (hsame ▸ hplaced) hid

/-- A revision of a set whose members all have identifiers leaves it whole just if it fits. -/
theorem revisesWholly_iff (h : set.Identified) (hnamed : set.Named) {revision : Revision} :
    set.RevisesWholly revision ↔ set.Fits revision := by
  constructor
  · rintro hwhole p rfl hconcerns hid
    obtain ⟨hfailed, -, hchanged⟩ := replace_unidentified h hconcerns hid
    exact hchanged (hwhole.kept _ hfailed).2
  · intro hfits
    refine ⟨hnamed.revise revision (h.revise hfits), fun e hfailed => ?_⟩
    rw [kept_of_fits h hfits hfailed]
    exact ⟨rfl, rfl⟩

/-! ### What a run of revisions does -/

/-- However a set is revised, its hash names its members whenever they all have identifiers. -/
theorem named_revised (h : set.Named) (revisions : List Revision) : (set.revised revisions).Named :=
  holds_revised (P := Named) h (fun _ last _ hbefore => hbefore.revise last) revisions
    List.prefix_rfl

theorem concerns_iff {p : Parameters} :
    set.Concerns p ↔ p.action.id ∈ set.members.map (·.action.id) := by
  simp [Concerns]

theorem concerns_revised (set : ParameterSet) (revisions : List Revision) (p : Parameters) :
    (set.revised revisions).Concerns p ↔ set.Concerns p := by
  refine holds_revised (P := fun s => s.Concerns p ↔ set.Concerns p) Iff.rfl
    (fun before last _ hbefore => ?_) revisions List.prefix_rfl
  rw [← hbefore, concerns_iff, concerns_iff, actions_revise]

theorem fits_revised (set : ParameterSet) (revisions : List Revision) (revision : Revision) :
    (set.revised revisions).Fits revision ↔ set.Fits revision := by
  simp only [Fits, concerns_revised]

/-- As long as all revisions fit, all members have identifiers. -/
theorem identified_along (h : set.Identified) {revisions : List Revision}
    (hfits : ∀ before last, before ++ [last] <+: revisions → (set.revised before).Identified →
      (set.revised before).Fits last) :
    ∀ before, before <+: revisions → (set.revised before).Identified :=
  holds_revised h fun before last hinitial hbefore =>
    hbefore.revise (hfits before last hinitial hbefore)

theorem identified_of_ofMembers {members : List Parameters} (h : ofMembers members = .ok set) :
    set.Identified ∧ set.Named ∧ set.members = members := by
  by_cases hids : ∀ p ∈ members, p.id ≠ []
  · rw [ofMembers_eq_ok hids] at h
    obtain rfl := Except.ok.inj h
    exact ⟨hids, fun _ => rfl, rfl⟩
  · simp only [not_forall, not_not] at hids
    obtain ⟨p, hp, hid⟩ := hids
    rw [ofMembers, hashOf_of_unidentified ⟨p, hp, hid⟩] at h
    contradiction

/-- When a set is never left half changed. Whatever revisions a set goes through, its hash is that
of its members' identifiers as long as all members have one. Each revision of a run leaves a set
whose hash is that of its members' identifiers, and leaves the set as it was if it fails, exactly if
each replacement for the action of one of the members that the set was made of has an identifier. -/
theorem revises_wholly_along_iff {members : List Parameters} (hset : ofMembers members = .ok set)
    (revisions : List Revision) :
    (∀ before, before <+: revisions → (set.revised before).Named) ∧
    ((∀ before last, before ++ [last] <+: revisions → (set.revised before).RevisesWholly last) ↔
      ∀ p, .replace p ∈ revisions → (∃ member ∈ members, member.action.id = p.action.id) →
        p.id ≠ []) := by
  obtain ⟨hids, hnamed, rfl⟩ := identified_of_ofMembers hset
  refine ⟨fun before _ => named_revised hnamed before, fun hwhole p hp hconcerns => ?_,
    fun hfit => ?_⟩
  · have hfits (front : List Revision) (last : Revision) (hfront : front ++ [last] <+: revisions)
        (hbefore : (set.revised front).Identified) : (set.revised front).Fits last :=
      (revisesWholly_iff hbefore (named_revised hnamed front)).mp (hwhole front last hfront)
    obtain ⟨front, behind, rfl⟩ := List.append_of_mem hp
    have hfront : front ++ [.replace p] <+: front ++ .replace p :: behind := ⟨behind, by simp⟩
    -- The run has left the set whole so far, so that all members still have identifiers.
    have hbefore := identified_along hids hfits front ((List.prefix_append _ _).trans hfront)
    exact (fits_revised set front _).mp (hfits front _ hfront hbefore) p rfl hconcerns
  · have hfits (front : List Revision) (last : Revision) (hfront : front ++ [last] <+: revisions) :
        (set.revised front).Fits last := by
      rw [fits_revised]
      rintro p rfl hconcerns
      exact hfit p (hfront.subset (by simp)) hconcerns
    intro before last hinitial
    have hbefore := identified_along hids (fun front last hfront _ => hfits front last hfront)
      before ((List.prefix_append _ _).trans hinitial)
    exact (revisesWholly_iff hbefore (named_revised hnamed before)).mpr
      (hfits before last hinitial)

/-- A member is replaced and the hash is computed anew once more. -/
theorem revises_wholly_along_two :
    ∃ set, ofMembers [.sample 1] = .ok set ∧
      ∀ before last, before ++ [last] <+: [.replace (.sample 2), .rehash] →
        (set.revised before).RevisesWholly last := by
  have hids : ∀ p ∈ [Parameters.sample 1], p.id ≠ [] := by decide
  have hmade := ofMembers_eq_ok hids
  refine ⟨_, hmade, (revises_wholly_along_iff hmade _).2.mpr fun p hp _ => ?_⟩
  obtain rfl : p = .sample 2 := by simpa using hp
  decide

/-- Parameters for the action of `Parameters.sample 1` that have not been given an identifier. -/
def unidentified : Parameters := { Parameters.sample 1 with id := [] }

/-- A replacement that fails takes the member's place, and the hash stays that of the member. -/
theorem half_replaced :
    ∃ set, ofMembers [.sample 1] = .ok set ∧
      (set.revise (.replace unidentified)).1 = .error (.missingId "parameters") ∧
      (set.revise (.replace unidentified)).2.members = [unidentified] ∧
      (set.revise (.replace unidentified)).2.hash = set.hash ∧
      ¬ set.RevisesWholly (.replace unidentified) := by
  refine ⟨_, ofMembers_eq_ok (by decide), rfl, rfl, rfl, fun hwhole => ?_⟩
  have hids : [unidentified.id] = [(Parameters.sample 1).id] :=
    congrArg (List.map Parameters.id) (hwhole.kept _ rfl).2
  contradiction

end ParameterSet
end ParameterLog
