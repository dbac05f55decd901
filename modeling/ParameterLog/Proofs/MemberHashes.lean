/-
Module: ParameterLog.Proofs.MemberHashes
Purpose: what the hash of a set says about its members.
Main exports: Bytes.Collide, Bytes.counted, Bytes.flatMap_counted_inj,
  ParameterSet.sortIds_eq_iff, ParameterSet.hashInput_eq_iff, ParameterSet.hash_names_members
-/
import ParameterLog.Proofs.CatalogReplay

/-!
What is hashed for a set are its identifiers in increasing order, each behind its length. The order
of the members is lost in it and nothing else is: sorted lists are the same just if they hold the
same identifiers as often (`sortIds_eq_iff`), and the lengths say where one identifier ends and the
next begins, whatever bytes they are made of (`flatMap_counted_inj`). So two sets have one hash just
if they have the same identifiers in some order, unless what is hashed for them is a collision of
the hash (`hash_names_members`).
-/

namespace ParameterLog

namespace Bytes

/-- Two byte strings that differ have one hash. -/
def Collide (a b : Bytes) : Prop := a ≠ b ∧ a.blake3 = b.blake3

/-- Two byte strings have one hash just if they are the same or collide. -/
theorem blake3_eq_iff {a b : Bytes} : a.blake3 = b.blake3 ↔ a = b ∨ Collide a b := by
  constructor
  · intro h
    by_cases heq : a = b
    · exact .inl heq
    · exact .inr ⟨heq, h⟩
  · rintro (rfl | ⟨-, h⟩)
    · rfl
    · exact h

/-! ### Byte strings behind their lengths -/

/-- A byte string behind its length in a word. -/
def counted (width : Nat) (bytes : Bytes) : Bytes := littleEndian width bytes.length ++ bytes

theorem littleEndian_inj {width m n : Nat} (hm : m < wordCount width) (hn : n < wordCount width)
    (h : littleEndian width m = littleEndian width n) : m = n := by
  have hvalue := congrArg ofLittleEndian h
  rwa [ofLittleEndian_littleEndian, ofLittleEndian_littleEndian, Nat.mod_eq_of_lt hm,
    Nat.mod_eq_of_lt hn] at hvalue

section Counted

variable {width : Nat}

/-- A byte string behind its length can be told from what follows it. -/
theorem counted_append_inj {a b rest more : Bytes} (ha : a.length < wordCount width)
    (hb : b.length < wordCount width) (h : counted width a ++ rest = counted width b ++ more) :
    a = b ∧ rest = more := by
  rw [counted, counted, List.append_assoc, List.append_assoc] at h
  obtain ⟨hword, hbehind⟩ := List.append_inj h (by simp)
  exact List.append_inj hbehind (littleEndian_inj ha hb hword)

theorem counted_ne_nil (hwidth : 0 < width) (bytes : Bytes) : counted width bytes ≠ [] := by
  intro hnil
  have hword := List.append_eq_nil_iff.mp hnil |>.1
  have hlength := congrArg List.length hword
  rw [length_littleEndian] at hlength
  exact absurd hlength (Nat.ne_of_gt hwidth)

/-- Byte strings that are joined, each behind its length, can be told from each other. -/
theorem flatMap_counted_inj (hwidth : 0 < width) {xs ys : List Bytes}
    (hxs : ∀ x ∈ xs, x.length < wordCount width) (hys : ∀ y ∈ ys, y.length < wordCount width)
    (h : xs.flatMap (counted width) = ys.flatMap (counted width)) : xs = ys := by
  induction xs generalizing ys with
  | nil =>
    cases ys with
    | nil => rfl
    | cons y more =>
      have hnil := (List.append_eq_nil_iff.mp h.symm).1
      exact absurd hnil (counted_ne_nil hwidth y)
  | cons x rest ih =>
    cases ys with
    | nil =>
      have hnil := (List.append_eq_nil_iff.mp h).1
      exact absurd hnil (counted_ne_nil hwidth x)
    | cons y more =>
      rw [List.flatMap_cons, List.flatMap_cons] at h
      obtain ⟨hx, hrest⟩ := List.forall_mem_cons.mp hxs
      obtain ⟨hy, hmore⟩ := List.forall_mem_cons.mp hys
      obtain ⟨rfl, hbehind⟩ := counted_append_inj hx hy h
      rw [ih hrest hmore hbehind]

end Counted

end Bytes

namespace ParameterSet

/-! ### Identifiers in order -/

theorem sortIds_perm (ids : List Bytes) : (sortIds ids).Perm ids :=
  List.mergeSort_perm _ _

theorem sortIds_sorted (ids : List Bytes) : (sortIds ids).Pairwise (· ≤ ·) := by
  have htrans (a b c : Bytes) (hab : decide (a ≤ b) = true) (hbc : decide (b ≤ c) = true) :
      decide (a ≤ c) = true := by
    simp only [decide_eq_true_eq] at *
    exact List.le_trans hab hbc
  have htotal (a b : Bytes) : (decide (a ≤ b) || decide (b ≤ a)) = true := by
    simpa [Bool.or_eq_true, decide_eq_true_eq] using List.le_total a b
  exact (List.pairwise_mergeSort htrans htotal ids).imp of_decide_eq_true

/-- Putting identifiers in order forgets which order they were in, and nothing else. -/
theorem sortIds_eq_iff {ids others : List Bytes} :
    sortIds ids = sortIds others ↔ ids.Perm others := by
  constructor
  · intro h
    exact (sortIds_perm ids).symm.trans (h ▸ sortIds_perm others)
  · intro h
    have hsorted : (sortIds ids).Perm (sortIds others) :=
      (sortIds_perm ids).trans (h.trans (sortIds_perm others).symm)
    exact hsorted.eq_of_pairwise (fun _ _ _ _ => List.le_antisymm) (sortIds_sorted ids)
      (sortIds_sorted others)

/-! ### What is hashed -/

/-- The same is hashed for identifiers just if they are the same in some order. -/
theorem hashInput_eq_iff {ids others : List Bytes}
    (hids : ∀ id ∈ ids, id.length < Bytes.wordCount 8)
    (hothers : ∀ id ∈ others, id.length < Bytes.wordCount 8) :
    hashInput ids = hashInput others ↔ ids.Perm others := by
  rw [← sortIds_eq_iff]
  constructor
  · intro h
    have hshort : ∀ id ∈ sortIds ids, id.length < Bytes.wordCount 8 := fun id hid =>
      hids id ((sortIds_perm ids).mem_iff.mp hid)
    have hshorts : ∀ id ∈ sortIds others, id.length < Bytes.wordCount 8 := fun id hid =>
      hothers id ((sortIds_perm others).mem_iff.mp hid)
    exact Bytes.flatMap_counted_inj (by decide) hshort hshorts h
  · intro h
    rw [hashInput, hashInput, h]

theorem hashOf_of_identified {members : List Parameters} (h : ∀ p ∈ members, p.id ≠ []) :
    hashOf members = .ok (hashInput (members.map (·.id))).blake3 := by
  rw [hashOf, if_neg]
  simpa using h

/-- Members that all have identifiers make up a set. -/
theorem ofMembers_eq_ok {members : List Parameters} (h : ∀ p ∈ members, p.id ≠ []) :
    ofMembers members = .ok ⟨(hashInput (members.map (·.id))).blake3, members, none⟩ := by
  rw [ofMembers, hashOf_of_identified h]
  rfl

/-- The hash of a set names its members by their identifiers. What is hashed for two lists of
parameters with identifiers, whose lengths fit eight bytes, is the same just if the identifiers are,
in some order and each as often. Both lists make up sets, and these have one hash just if the
identifiers are the same in this sense or what is hashed for them collides. -/
theorem hash_names_members {ps qs : List Parameters}
    (hids : ∀ p ∈ ps ++ qs, p.id ≠ [] ∧ p.id.length < Bytes.wordCount 8) :
    (hashInput (ps.map (·.id)) = hashInput (qs.map (·.id)) ↔
      (ps.map (·.id)).Perm (qs.map (·.id))) ∧
    ∃ s t, ofMembers ps = .ok s ∧ ofMembers qs = .ok t ∧
      s.hash = (hashInput (ps.map (·.id))).blake3 ∧ t.hash = (hashInput (qs.map (·.id))).blake3 ∧
      (s.hash = t.hash ↔ (ps.map (·.id)).Perm (qs.map (·.id)) ∨
        Bytes.Collide (hashInput (ps.map (·.id))) (hashInput (qs.map (·.id)))) := by
  obtain ⟨hps, hqs⟩ := List.forall_mem_append.mp hids
  have hinput : hashInput (ps.map (·.id)) = hashInput (qs.map (·.id)) ↔
      (ps.map (·.id)).Perm (qs.map (·.id)) := by
    apply hashInput_eq_iff
    · exact List.forall_mem_map.mpr fun p hp => (hps p hp).2
    · exact List.forall_mem_map.mpr fun q hq => (hqs q hq).2
  refine ⟨hinput, _, _, ofMembers_eq_ok fun p hp => (hps p hp).1,
    ofMembers_eq_ok fun q hq => (hqs q hq).1, rfl, rfl, ?_⟩
  rw [Bytes.blake3_eq_iff, hinput]

/-- Two members make up sets of one hash in either order. -/
theorem swapped_members_one_hash :
    (∀ p ∈ [Parameters.sample 1, .sample 2] ++ [.sample 2, .sample 1],
      p.id ≠ [] ∧ p.id.length < Bytes.wordCount 8) ∧
    ∃ s t, ofMembers [.sample 1, .sample 2] = .ok s ∧ ofMembers [.sample 2, .sample 1] = .ok t ∧
      s.hash = t.hash := by
  have hids : ∀ p ∈ [Parameters.sample 1, .sample 2] ++ [.sample 2, .sample 1],
      p.id ≠ [] ∧ p.id.length < Bytes.wordCount 8 := by
    decide
  refine ⟨hids, ?_⟩
  obtain ⟨-, s, t, hs, ht, -, -, hsame⟩ := hash_names_members hids
  exact ⟨s, t, hs, ht, hsame.mpr (.inl (.swap _ _ _))⟩

end ParameterSet
end ParameterLog
