/-
Module: ParameterLog.Proofs.JsonEcho
Purpose: a value that is read back as the same value has the same text.
Main exports: Members.ofList_of_ordered, Number.compact_of_echo, Value.compact_of_echo
-/
import Mathlib.Data.List.Forall2
import Mathlib.Data.String.Basic
import ParameterLog.Proofs.JsonReading

/-!
Values are compared but for the sign of zeros and hashed by their texts, so that two values that are
the same may have different hashes. Not so a value and its echo: reading keeps the sign of a number,
so if the two are the same, then they have the same text (`Value.compact_of_echo`). What is hashed
of a value is therefore not changed by storing it.
-/

namespace ParameterLog.Json

/-! ### Maps in order -/

namespace Members

open Value (Ordered)

theorem mem_insert {name : String} {value : Value} {map : Members} {member : String × Value}
    (h : member ∈ insert name value map) : member = (name, value) ∨ member ∈ map := by
  induction map with
  | nil => exact .inl (List.mem_singleton.mp h)
  | cons first rest ih =>
    rw [insert] at h
    split at h
    · exact List.mem_cons.mp h
    · split at h
      · rcases List.mem_cons.mp h with rfl | h
        · exact .inl rfl
        · exact .inr (List.mem_cons_of_mem _ h)
      · rcases List.mem_cons.mp h with rfl | h
        · exact .inr List.mem_cons_self
        · exact (ih h).imp_right (List.mem_cons_of_mem _)

theorem ordered_insert {map : Members} (h : Ordered map) (name : String) (value : Value) :
    Ordered (insert name value map) := by
  induction map with
  | nil => exact List.pairwise_singleton _ _
  | cons first rest ih =>
    obtain ⟨hfirst, hrest⟩ := List.pairwise_cons.mp h
    rw [insert]
    split
    · next hlt =>
      refine List.pairwise_cons.mpr ⟨fun member hmember => ?_, h⟩
      rcases List.mem_cons.mp hmember with rfl | hmember
      · exact hlt
      · exact hlt.trans (hfirst member hmember)
    · next hnot =>
      split
      · next heq =>
        subst heq
        exact List.pairwise_cons.mpr ⟨hfirst, hrest⟩
      · next hne =>
        refine List.pairwise_cons.mpr ⟨fun member hmember => ?_, ih hrest⟩
        rcases mem_insert hmember with rfl | hmember
        · exact lt_of_le_of_ne (not_lt.mp hnot) (Ne.symm hne)
        · exact hfirst member hmember

/-- A name behind all others goes to the end. -/
theorem insert_of_forall_lt {name : String} (value : Value) {map : Members}
    (h : ∀ member ∈ map, member.1 < name) : insert name value map = map ++ [(name, value)] := by
  induction map with
  | nil => rfl
  | cons first rest ih =>
    have hlt : first.1 < name := h first List.mem_cons_self
    rw [insert, if_neg (not_lt_of_gt hlt), if_neg hlt.ne', List.cons_append,
      ih fun member hmember => h member (List.mem_cons_of_mem _ hmember)]

theorem ordered_foldl_insert (members : List (String × Value)) {map : Members} (h : Ordered map) :
    Ordered (members.foldl (fun map member => insert member.1 member.2 map) map) := by
  induction members generalizing map with
  | nil => exact h
  | cons first rest ih => exact ih (ordered_insert h first.1 first.2)

theorem ordered_ofList (members : List (String × Value)) : Ordered (ofList members) :=
  ordered_foldl_insert members List.Pairwise.nil

theorem foldl_insert_of_ordered {map members : Members} (h : Ordered (map ++ members)) :
    members.foldl (fun map member => insert member.1 member.2 map) map = map ++ members := by
  induction members generalizing map with
  | nil => exact (List.append_nil map).symm
  | cons first rest ih =>
    have hbefore : ∀ member ∈ map, member.1 < first.1 := fun member hmember =>
      (List.pairwise_append.mp h).2.2 member hmember first List.mem_cons_self
    rw [List.foldl_cons, insert_of_forall_lt first.2 hbefore]
    rw [ih] <;> simp [h]

/-- Members that are in order already are the map that is made of them. -/
theorem ofList_of_ordered {members : Members} (h : Ordered members) : ofList members = members :=
  foldl_insert_of_ordered h

theorem ordered_congr {map members : Members} (h : map.map (·.1) = members.map (·.1)) :
    Ordered map ↔ Ordered members := by
  have hnames (map : Members) : Ordered map ↔ (map.map (·.1)).Pairwise (· < ·) := by
    rw [List.pairwise_map, Ordered]
  rw [hnames, hnames, h]

end Members

/-! ### Texts of lists -/

theorem mapM_ok_iff {ε α β : Type} {f : α → Except ε β} {xs : List α} {ys : List β} :
    xs.mapM f = .ok ys ↔ List.Forall₂ (fun x y => f x = .ok y) xs ys := by
  induction xs generalizing ys with
  | nil => simp [pure, Except.pure, eq_comm]
  | cons x rest ih =>
    rw [List.mapM_cons, List.forall₂_cons_left_iff]
    cases hx : f x with
    | error e => simp [bind, Except.bind]
    | ok y =>
      cases hrest : rest.mapM f with
      | error e => simp [bind, Except.bind, ← ih, hrest]
      | ok more => simp [bind, Except.bind, pure, Except.pure, ← ih, hrest, eq_comm]

theorem forall₂_of_sameItems {items others : List Value} (h : Value.sameItems items others = true) :
    List.Forall₂ (fun v w => Value.same v w = true) items others := by
  induction items generalizing others with
  | nil =>
    cases others with
    | nil => exact .nil
    | cons w more => simp [Value.sameItems] at h
  | cons v rest ih =>
    cases others with
    | nil => simp [Value.sameItems] at h
    | cons w more =>
      rw [Value.sameItems, Bool.and_eq_true] at h
      exact .cons h.1 (ih h.2)

theorem forall₂_of_sameMembers {members others : Members}
    (h : Value.sameMembers members others = true) :
    List.Forall₂ (fun m n => m.1 = n.1 ∧ Value.same m.2 n.2 = true) members others := by
  induction members generalizing others with
  | nil =>
    cases others with
    | nil => exact .nil
    | cons n more => simp [Value.sameMembers] at h
  | cons m rest ih =>
    cases others with
    | nil => simp [Value.sameMembers] at h
    | cons n more =>
      rw [Value.sameMembers, Bool.and_eq_true, Bool.and_eq_true, beq_iff_eq] at h
      exact .cons h.1 (ih h.2)

theorem names_of_forall₂ {members others : Members}
    (h : List.Forall₂ (fun m n => m.1 = n.1) members others) :
    members.map (·.1) = others.map (·.1) := by
  induction h with
  | nil => rfl
  | cons hfirst _ ih => rw [List.map_cons, List.map_cons, hfirst, ih]

theorem compactItems_congr {items others : List Value}
    (h : List.Forall₂ (fun v w => v.compact = w.compact) items others) :
    Value.compactItems items = Value.compactItems others := by
  induction h with
  | nil => rfl
  | @cons v w items others hfirst hrest ih =>
    rw [compactItems_cons, compactItems_cons, hfirst]
    cases hrest with
    | nil => rfl
    | cons hnext hmore => rw [itemsTail, itemsTail, ih] <;> simp

theorem compactMembers_congr {members others : Members}
    (h : List.Forall₂ (fun m n => m.1 = n.1 ∧ m.2.compact = n.2.compact) members others) :
    Value.compactMembers members = Value.compactMembers others := by
  induction h with
  | nil => rfl
  | @cons m n members others hfirst hrest ih =>
    obtain ⟨name, v⟩ := m
    obtain ⟨other, w⟩ := n
    obtain ⟨rfl, hcompact⟩ := hfirst
    rw [compactMembers_cons, compactMembers_cons, hcompact]
    cases hrest with
    | nil => rfl
    | cons hnext hmore => rw [membersTail, membersTail, ih] <;> simp

/-! ### Echoes -/

theorem Double.text_of_sameNumber {d e : Double} (hsame : d.sameNumber e = true)
    (hsign : d.negative = e.negative) : d.text = e.text := by
  rw [sameNumber, Bool.or_eq_true, Bool.and_eq_true, beq_iff_eq] at hsame
  obtain ⟨hd, he⟩ | rfl := hsame
  · rw [text, text, hd, he, hsign]
    rfl
  · rfl

/-- A number that is read back as the same number has the same text. -/
theorem Number.compact_of_echo {n m : Number} (hecho : n.echo = .ok m)
    (hsame : m.same n = true) : m.compact = n.compact := by
  cases m with
  | integer a =>
    cases n with
    | integer b =>
      rw [same, beq_iff_eq] at hsame
      rw [hsame]
    | double d => contradiction
  | double d =>
    cases n with
    | integer b => contradiction
    | double e =>
      rw [compact, compact, Double.text_of_sameNumber hsame (negative_of_echo hecho)]

theorem map_eq_ok {ε α β : Type} {f : α → β} {x : Except ε α} {b : β} (h : x.map f = .ok b) :
    ∃ a, x = .ok a ∧ f a = b := by
  cases x with
  | error e => contradiction
  | ok a => exact ⟨a, rfl, Except.ok.inj h⟩

theorem bind_eq_ok {ε α β : Type} {f : α → Except ε β} {x : Except ε α} {b : β}
    (h : x.bind f = .ok b) : ∃ a, x = .ok a ∧ f a = .ok b := by
  cases x with
  | error e => contradiction
  | ok a => exact ⟨a, rfl, h⟩

/-- A value that is read back as the same value has the same text. -/
theorem Value.compact_of_echo {levels : Nat} {v w : Value} (hecho : v.echo levels = .ok w)
    (hsame : w.same v = true) : w.compact = v.compact := by
  induction levels generalizing v w with
  | zero =>
    cases v with
    | null | bool b | text s => rw [Except.ok.inj hecho]
    | number n =>
      obtain ⟨m, hm, rfl⟩ := map_eq_ok hecho
      exact Number.compact_of_echo hm hsame
    | array items => contradiction
    | object members => contradiction
  | succ levels ih =>
    cases v with
    | null | bool b | text s => rw [Except.ok.inj hecho]
    | number n =>
      obtain ⟨m, hm, rfl⟩ := map_eq_ok hecho
      exact Number.compact_of_echo hm hsame
    | array items =>
      rw [echo] at hecho
      obtain ⟨found, hfound, rfl⟩ := map_eq_ok hecho
      rw [same] at hsame
      have hitems := (forall₂_of_sameItems hsame).mp (fun v w hsame hecho => ih hecho hsame)
        (mapM_ok_iff.mp hfound).flip
      rw [compact, compact, compactItems_congr hitems]
    | object members =>
      rw [echo] at hecho
      obtain ⟨found, hfound, rfl⟩ := map_eq_ok hecho
      rw [same] at hsame
      have hread : List.Forall₂ (fun m n => n.1 = m.1 ∧ n.2.echo levels = .ok m.2) found members :=
        ((mapM_ok_iff.mp hfound).flip).imp fun m n h => by
          obtain ⟨v, hv, rfl⟩ := map_eq_ok h
          exact ⟨rfl, hv⟩
      have hsame := forall₂_of_sameMembers hsame
      have hnames : (Members.ofList found).map (·.1) = found.map (·.1) :=
        (names_of_forall₂ (hsame.imp fun _ _ h => h.1)).trans
          (names_of_forall₂ (hread.imp fun _ _ h => h.1.symm)).symm
      have hordered : Value.Ordered found :=
        (Members.ordered_congr hnames).mp (Members.ordered_ofList found)
      rw [Members.ofList_of_ordered hordered] at hsame ⊢
      have hmembers : List.Forall₂ (fun m n => m.1 = n.1 ∧ m.2.compact = n.2.compact) found
          members :=
        hread.mp (fun m n hread hsame => ⟨hsame.1, ih hread.2 hsame.2⟩) hsame
      rw [compact, compact, compactMembers_congr hmembers]

end ParameterLog.Json
