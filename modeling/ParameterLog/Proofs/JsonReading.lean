/-
Module: ParameterLog.Proofs.JsonReading
Purpose: what the compact text of a value is read back as.
Main exports: Value.echo, Json.readItems_compactItems, Json.readMembers_compactMembers,
  Json.readValue_compact
-/
import ParameterLog.Proofs.NumeralReading
import ParameterLog.Proofs.TextReading

/-!
A reader that meets the compact text of a value takes all of it, whatever stands behind, and comes
out with the echo of the value (`readValue_compact`). The echo is the value again but for three
things: it breaks off where the value nests too deep, numbers may have been rounded, and of members
with one name the last counts. Arrays and maps are read item by item and member by member, by
lemmas that say nothing of what an item or a member is (`readItems_compactItems`,
`readMembers_compactMembers`): records are read by the same loops.
-/

namespace ParameterLog.Json

open Bytes (ofText)

/-- What a value is read back as that may nest so many levels deep. -/
def Value.echo : Nat → Value → Except ReadError Value
  | levels + 1, .array items => (items.mapM (echo levels)).map .array
  | levels + 1, .object members =>
    (members.mapM fun member => (echo levels member.2).map (member.1, ·)).map fun members =>
      .object (Members.ofList members)
  | 0, .array _ => .error .malformed
  | 0, .object _ => .error .malformed
  | _, .number n => n.echo.map .number
  | _, other => .ok other

/-- The echo of a map. -/
def Members.echo : Nat → Members → Except ReadError Members
  | 0, _ => .error .malformed
  | levels + 1, members =>
    (members.mapM fun (member : String × Value) =>
      (member.2.echo levels).map (member.1, ·)).map ofList

theorem Value.echo_object (levels : Nat) (members : Members) :
    (Value.object members).echo levels = (members.echo levels).map .object := by
  cases levels with
  | zero => rfl
  | succ levels =>
    rw [Value.echo, Members.echo]
    cases members.mapM fun (member : String × Value) => (member.2.echo levels).map (member.1, ·)
    · rfl
    · rfl

/-! ### Items -/

/-- What stands behind an item of an array. -/
def itemsTail : List Value → Bytes
  | [] => [0x5d]
  | items => 0x2c :: Value.compactItems items

theorem compactItems_cons (v : Value) (rest : List Value) :
    Value.compactItems (v :: rest) = v.compact ++ itemsTail rest := by
  cases rest with
  | nil => rw [Value.compactItems, itemsTail]
  | cons next more => rw [Value.compactItems, itemsTail] <;> simp

theorem stops_itemsTail (items : List Value) (rest : Bytes) : Stops (itemsTail items ++ rest) := by
  cases items with
  | nil => exact stops_bracket rest
  | cons next more => exact stops_comma _

/-- The first byte of a value is no blank and closes nothing. -/
structure Opens (byte : UInt8) : Prop where
  blank : ¬ IsBlank byte
  bracket : byte ≠ 0x5d
  brace : byte ≠ 0x7d

theorem opens_of_digit {byte : UInt8} (h : (digit? byte).isSome = true) : Opens byte := by
  constructor
  · rintro (rfl | rfl | rfl | rfl) <;> contradiction
  · rintro rfl
    contradiction
  · rintro rfl
    contradiction

theorem opens_minus : Opens 0x2d := by
  constructor <;> decide

theorem opens_quote : Opens 0x22 := by
  constructor <;> decide

theorem Number.compact_cons (n : Number) :
    ∃ byte rest, n.compact = byte :: rest ∧ (byte = 0x2d ∨ (digit? byte).isSome = true) := by
  obtain ⟨negative, numeral, hnumeral, heq, -⟩ := n.compact_eq
  cases negative with
  | true => exact ⟨_, _, heq, .inl rfl⟩
  | false =>
    obtain ⟨first, more, rfl, hfirst⟩ := hnumeral.exists_cons
    exact ⟨first, more, heq, .inr hfirst⟩

theorem Value.compact_cons (v : Value) : ∃ byte rest, v.compact = byte :: rest ∧ Opens byte := by
  cases v with
  | null => exact ⟨0x6e, _, rfl, by constructor <;> decide⟩
  | bool b =>
    cases b with
    | true => exact ⟨0x74, _, rfl, by constructor <;> decide⟩
    | false => exact ⟨0x66, _, rfl, by constructor <;> decide⟩
  | number n =>
    obtain ⟨byte, rest, heq, hfirst⟩ := n.compact_cons
    refine ⟨byte, rest, by rw [compact, heq], ?_⟩
    obtain rfl | hdigit := hfirst
    · exact opens_minus
    · exact opens_of_digit hdigit
  | text s => exact ⟨0x22, _, by rw [compact]; rfl, opens_quote⟩
  | array items => exact ⟨0x5b, _, by rw [compact], by constructor <;> decide⟩
  | object members => exact ⟨0x7b, _, by rw [compact], by constructor <;> decide⟩

theorem nextItem_close (first : Bool) (rest : Bytes) :
    nextItem first (0x5d :: rest) = .ok (false, 0x5d :: rest) := by
  rw [nextItem, skipBlanks_cons (by decide)]
  rfl

theorem nextItem_first {byte : UInt8} (h : Opens byte) (rest : Bytes) :
    nextItem true (byte :: rest) = .ok (true, byte :: rest) := by
  simp only [nextItem, skipBlanks_cons h.blank, h.bracket, if_false, if_true]

theorem nextItem_comma {byte : UInt8} (h : Opens byte) (rest : Bytes) :
    nextItem false (0x2c :: byte :: rest) = .ok (true, byte :: rest) := by
  rw [nextItem, skipBlanks_cons (by decide)]
  simp only [Bool.false_eq_true, if_false, if_true, skipBlanks_cons h.blank, h.bracket]
  rfl

section Items

variable {α : Type} {item : Bytes → Except ReadError (α × Bytes)}
  {result : Value → Except ReadError α}

/-- One item is read, then those behind it. -/
theorem readItems_step {rounds : Nat} {first : Bool} {input tail rest : Bytes} {v : Value}
    {more : List Value} (hnext : nextItem first input = .ok (true, v.compact ++ tail))
    (hread : item (v.compact ++ tail) = (result v).map (·, tail))
    (hmore : ∀ done, readItems item rounds false tail done =
      (more.mapM result).map fun found => (done.reverse ++ found, rest)) (done : List α) :
    readItems item (rounds + 1) first input done =
      ((v :: more).mapM result).map fun found => (done.reverse ++ found, rest) := by
  simp only [readItems, hnext, hread, List.mapM_cons]
  cases result v with
  | error e => rfl
  | ok a =>
    simp only [Except.map] at hmore ⊢
    rw [hmore]
    cases more.mapM result with
    | error e => rfl
    | ok found => simp [bind, Except.bind, pure, Except.pure]

/-- The items behind the first one are read one by one up to the bracket. -/
theorem readItems_itemsTail {items : List Value}
    (hitem : ∀ v ∈ items, ∀ rest, Stops rest → item (v.compact ++ rest) = (result v).map (·, rest))
    {rounds : Nat} (hrounds : items.length < rounds) (rest : Bytes) (done : List α) :
    readItems item rounds false (itemsTail items ++ rest) done =
      (items.mapM result).map fun found => (done.reverse ++ found, rest) := by
  induction items generalizing rounds done with
  | nil =>
    obtain ⟨rounds, rfl⟩ := Nat.exists_eq_add_one.mpr hrounds
    simp only [itemsTail, List.singleton_append, readItems, nextItem_close]
    simp [pure, Except.pure, Except.map]
  | cons v more ih =>
    obtain ⟨rounds, rfl⟩ := Nat.exists_eq_add_one.mpr (Nat.zero_lt_of_lt hrounds)
    obtain ⟨byte, tail, hcompact, hopens⟩ := v.compact_cons
    have hnext : nextItem false (itemsTail (v :: more) ++ rest) =
        .ok (true, v.compact ++ (itemsTail more ++ rest)) := by
      rw [itemsTail, compactItems_cons, hcompact]
      · simp only [List.cons_append, nextItem_comma hopens, List.append_assoc]
      · simp
    exact readItems_step hnext (hitem v List.mem_cons_self _ (stops_itemsTail more rest))
      (ih (fun w hw => hitem w (List.mem_cons_of_mem _ hw)) (Nat.lt_of_succ_lt_succ hrounds)) done

/-- The items of an array are read one by one up to its bracket. -/
theorem readItems_compactItems {items : List Value}
    (hitem : ∀ v ∈ items, ∀ rest, Stops rest → item (v.compact ++ rest) = (result v).map (·, rest))
    {rounds : Nat} (hrounds : items.length < rounds) (rest : Bytes) :
    readItems item rounds true (Value.compactItems items ++ rest) [] =
      (items.mapM result).map (·, rest) := by
  obtain ⟨rounds, rfl⟩ := Nat.exists_eq_add_one.mpr (Nat.zero_lt_of_lt hrounds)
  cases items with
  | nil =>
    simp only [Value.compactItems, List.singleton_append, readItems, nextItem_close]
    rfl
  | cons v more =>
    obtain ⟨byte, tail, hcompact, hopens⟩ := v.compact_cons
    have hnext : nextItem true (Value.compactItems (v :: more) ++ rest) =
        .ok (true, v.compact ++ (itemsTail more ++ rest)) := by
      rw [compactItems_cons, hcompact]
      simp only [List.cons_append, nextItem_first hopens, List.append_assoc]
    exact readItems_step hnext (hitem v List.mem_cons_self _ (stops_itemsTail more rest))
      (readItems_itemsTail (fun w hw => hitem w (List.mem_cons_of_mem _ hw))
        (Nat.lt_of_succ_lt_succ hrounds) rest) []

end Items

/-! ### Members -/

/-- What stands behind a member of a map. -/
def membersTail : List (String × Value) → Bytes
  | [] => [0x7d]
  | members => 0x2c :: Value.compactMembers members

theorem compactMembers_cons (name : String) (v : Value) (rest : List (String × Value)) :
    Value.compactMembers ((name, v) :: rest) =
      quoted name ++ 0x3a :: (v.compact ++ membersTail rest) := by
  cases rest with
  | nil => simp [Value.compactMembers, membersTail]
  | cons next more => simp [Value.compactMembers, membersTail]

theorem stops_membersTail (members : List (String × Value)) (rest : Bytes) :
    Stops (membersTail members ++ rest) := by
  cases members with
  | nil => exact stops_brace rest
  | cons next more => exact stops_comma _

theorem nextMember_close (first : Bool) (rest : Bytes) :
    nextMember first (0x7d :: rest) = .ok (none, 0x7d :: rest) := by
  rw [nextMember, skipBlanks_cons (by decide)]
  rfl

theorem nextMember_first (name : String) (rest : Bytes) :
    nextMember true (quoted name ++ rest) = .ok (some name, rest) := by
  rw [quoted_append, nextMember, skipBlanks_cons opens_quote.blank]
  simp only [opens_quote.brace, if_false, if_true, readText_quoted]
  rfl

theorem nextMember_comma (name : String) (rest : Bytes) :
    nextMember false (0x2c :: (quoted name ++ rest)) = .ok (some name, rest) := by
  have hcomma : ¬ (0x2c : UInt8) = 0x7d := by decide
  rw [quoted_append, nextMember, skipBlanks_cons (by decide)]
  simp only [hcomma, Bool.false_eq_true, if_false, if_true, skipBlanks_cons opens_quote.blank,
    readText_quoted]
  rfl

section Members

variable {σ : Type} {member : String → σ → Bytes → Except ReadError (σ × Bytes)}
  {step : σ → String × Value → Except ReadError σ}

/-- One member is read, then those behind it. -/
theorem readMembers_step {rounds : Nat} {first : Bool} {input tail rest : Bytes} {name : String}
    {v : Value} {more : List (String × Value)} {state : σ}
    (hnext : nextMember first input = .ok (some name, 0x3a :: (v.compact ++ tail)))
    (hread : member name state (0x3a :: (v.compact ++ tail)) =
      (step state (name, v)).map (·, tail))
    (hmore : ∀ state, readMembers member rounds false tail state =
      (more.foldlM step state).map (·, rest)) :
    readMembers member (rounds + 1) first input state =
      (((name, v) :: more).foldlM step state).map (·, rest) := by
  simp only [readMembers, hnext, hread, List.foldlM_cons]
  cases step state (name, v) with
  | error e => rfl
  | ok next => exact hmore next

theorem readMembers_membersTail {members : List (String × Value)}
    (hmember : ∀ name v, (name, v) ∈ members → ∀ state rest, Stops rest →
      member name state (0x3a :: (v.compact ++ rest)) = (step state (name, v)).map (·, rest))
    {rounds : Nat} (hrounds : members.length < rounds) (rest : Bytes) (state : σ) :
    readMembers member rounds false (membersTail members ++ rest) state =
      (members.foldlM step state).map (·, rest) := by
  induction members generalizing rounds state with
  | nil =>
    obtain ⟨rounds, rfl⟩ := Nat.exists_eq_add_one.mpr hrounds
    simp only [membersTail, List.singleton_append, readMembers, nextMember_close]
    rfl
  | cons first more ih =>
    obtain ⟨rounds, rfl⟩ := Nat.exists_eq_add_one.mpr (Nat.zero_lt_of_lt hrounds)
    obtain ⟨name, v⟩ := first
    have hnext : nextMember false (membersTail ((name, v) :: more) ++ rest) =
        .ok (some name, 0x3a :: (v.compact ++ (membersTail more ++ rest))) := by
      rw [membersTail, compactMembers_cons]
      · simp only [List.cons_append, List.append_assoc, nextMember_comma]
      · simp
    exact readMembers_step hnext
      (hmember name v List.mem_cons_self state _ (stops_membersTail more rest))
      (ih (fun n w hw => hmember n w (List.mem_cons_of_mem _ hw)) (Nat.lt_of_succ_lt_succ hrounds))

/-- The members of a map are read one by one up to its brace. -/
theorem readMembers_compactMembers {members : List (String × Value)}
    (hmember : ∀ name v, (name, v) ∈ members → ∀ state rest, Stops rest →
      member name state (0x3a :: (v.compact ++ rest)) = (step state (name, v)).map (·, rest))
    {rounds : Nat} (hrounds : members.length < rounds) (rest : Bytes) (state : σ) :
    readMembers member rounds true (Value.compactMembers members ++ rest) state =
      (members.foldlM step state).map (·, rest) := by
  obtain ⟨rounds, rfl⟩ := Nat.exists_eq_add_one.mpr (Nat.zero_lt_of_lt hrounds)
  cases members with
  | nil =>
    simp only [Value.compactMembers, List.singleton_append, readMembers, nextMember_close]
    rfl
  | cons first more =>
    obtain ⟨name, v⟩ := first
    have hnext : nextMember true (Value.compactMembers ((name, v) :: more) ++ rest) =
        .ok (some name, 0x3a :: (v.compact ++ (membersTail more ++ rest))) := by
      rw [compactMembers_cons]
      simp only [List.cons_append, List.append_assoc, nextMember_first]
    exact readMembers_step hnext
      (hmember name v List.mem_cons_self state _ (stops_membersTail more rest))
      (readMembers_membersTail (fun n w hw => hmember n w (List.mem_cons_of_mem _ hw))
        (Nat.lt_of_succ_lt_succ hrounds) rest)

end Members

/-! ### Lengths -/

theorem Value.length_compact_pos (v : Value) : 0 < v.compact.length := by
  obtain ⟨byte, rest, heq, -⟩ := v.compact_cons
  simp [heq]

theorem length_itemsTail (items : List Value) :
    (Value.compactItems items).length ≤ (itemsTail items).length := by
  cases items with
  | nil => simp [itemsTail, Value.compactItems]
  | cons v more => simp [itemsTail]

theorem length_membersTail (members : List (String × Value)) :
    (Value.compactMembers members).length ≤ (membersTail members).length := by
  cases members with
  | nil => simp [membersTail, Value.compactMembers]
  | cons first more => simp [membersTail]

/-- The text of an array is longer than its items are many, and no shorter than any. -/
theorem length_compactItems (items : List Value) :
    items.length < (Value.compactItems items).length ∧
      ∀ v ∈ items, v.compact.length ≤ (Value.compactItems items).length := by
  induction items with
  | nil => simp [Value.compactItems]
  | cons first more ih =>
    have htail := length_itemsTail more
    have hpos := first.length_compact_pos
    rw [compactItems_cons, List.length_append, List.length_cons]
    refine ⟨by omega, fun v hv => ?_⟩
    rcases List.mem_cons.mp hv with rfl | hv
    · exact Nat.le_add_right _ _
    · have := ih.2 v hv
      omega

theorem length_compactMembers (members : List (String × Value)) :
    members.length < (Value.compactMembers members).length ∧
      ∀ name v, (name, v) ∈ members →
        v.compact.length ≤ (Value.compactMembers members).length := by
  induction members with
  | nil => simp [Value.compactMembers]
  | cons first more ih =>
    obtain ⟨own, value⟩ := first
    have htail := length_membersTail more
    have hpos := value.length_compact_pos
    simp only [compactMembers_cons, List.length_append, List.length_cons]
    refine ⟨by omega, fun name v hv => ?_⟩
    rcases List.mem_cons.mp hv with heq | hv
    · obtain ⟨rfl, rfl⟩ := Prod.mk.inj heq
      omega
    · have := ih.2 name v hv
      omega

/-! ### Values -/

theorem expectWord_append (word rest : Bytes) : expectWord word (word ++ rest) = .ok rest := by
  induction word with
  | nil => rw [List.nil_append, expectWord]
  | cons byte more ih => rw [List.cons_append, expectWord, if_pos rfl, ih]

/-- Reading members into a map is reading them all and making a map of them. -/
theorem foldlM_insert (read : Value → Except ReadError Value) (members : List (String × Value))
    (map : Members) :
    (members.foldlM (fun map member =>
        (read member.2).map (Members.insert member.1 · map)) map) =
      (members.mapM fun member => (read member.2).map (member.1, ·)).map fun found =>
        found.foldl (fun map member => Members.insert member.1 member.2 map) map := by
  induction members generalizing map with
  | nil => rfl
  | cons first more ih =>
    rw [List.foldlM_cons, List.mapM_cons]
    cases read first.2 with
    | error e => rfl
    | ok v =>
      refine (ih (Members.insert first.1 v map)).trans ?_
      cases more.mapM fun member => (read member.2).map (member.1, ·) with
      | error e => simp [Except.map, bind, Except.bind]
      | ok found => simp [Except.map, bind, Except.bind, pure, Except.pure]

section Values

variable {rounds levels : Nat} {rest : Bytes}

theorem readValue_null :
    readValue rounds levels (Value.null.compact ++ rest) = .ok (.null, rest) := by
  have hcompact : Value.null.compact ++ rest = 0x6e :: (ofText "ull" ++ rest) := rfl
  rw [hcompact, readValue, skipBlanks_cons (by decide)]
  simp only [if_true, expectWord_append]
  rfl

theorem readValue_bool (b : Bool) :
    readValue rounds levels ((Value.bool b).compact ++ rest) = .ok (.bool b, rest) := by
  cases b with
  | true =>
    have hcompact : (Value.bool true).compact ++ rest = 0x74 :: (ofText "rue" ++ rest) := rfl
    rw [hcompact, readValue, skipBlanks_cons (by decide)]
    simp only [expectWord_append]
    rfl
  | false =>
    have hcompact : (Value.bool false).compact ++ rest = 0x66 :: (ofText "alse" ++ rest) := rfl
    rw [hcompact, readValue, skipBlanks_cons (by decide)]
    simp only [expectWord_append]
    rfl

theorem readValue_text (s : String) :
    readValue rounds levels ((Value.text s).compact ++ rest) = .ok (.text s, rest) := by
  rw [Value.compact, quoted_append, readValue, skipBlanks_cons opens_quote.blank]
  simp only [readText_quoted]
  rfl

theorem readValue_number (n : Number) (hrest : Stops rest) :
    readValue rounds levels ((Value.number n).compact ++ rest) =
      ((Value.number n).echo levels).map (·, rest) := by
  have hecho : ((Value.number n).echo levels).map (·, rest) =
      n.echo.map fun m => (.number m, rest) := by
    rw [Value.echo]
    cases n.echo <;> rfl
  rw [hecho, Value.compact]
  have hsigned := readSigned_compact n hrest
  obtain ⟨byte, more, hcompact, hfirst⟩ := n.compact_cons
  rw [hcompact, List.cons_append, readSigned] at hsigned
  rw [hcompact, List.cons_append, readValue]
  have hmap {reading : Except ReadError (Number × Bytes)} {wrap : Number × Bytes → Value × Bytes}
      (hwrap : ∀ m, wrap (m, rest) = (.number m, rest)) (h : reading = n.echo.map (·, rest)) :
      reading.map wrap = n.echo.map fun m => (.number m, rest) := by
    rw [h]
    cases n.echo with
    | error e => rfl
    | ok m => exact congrArg Except.ok (hwrap m)
  obtain rfl | hdigit := hfirst
  · rw [skipBlanks_cons opens_minus.blank]
    rw [if_pos rfl] at hsigned
    exact hmap (fun _ => rfl) hsigned
  · rw [skipBlanks_cons (opens_of_digit hdigit).blank]
    rw [if_neg (ne_minus_of_digit hdigit)] at hsigned
    have hletters : byte ≠ 0x6e ∧ byte ≠ 0x74 ∧ byte ≠ 0x66 := by
      refine ⟨?_, ?_, ?_⟩ <;> (rintro rfl; contradiction)
    obtain ⟨hnull, htrue, hfalse⟩ := hletters
    simp only [hnull, htrue, hfalse, ne_minus_of_digit hdigit, hdigit, if_false, if_true]
    exact hmap (fun _ => rfl) hsigned

theorem expectColon_cons (rest : Bytes) : expectColon (0x3a :: rest) = .ok rest := by
  rw [expectColon, skipBlanks_cons (by decide)]
  rfl

theorem readValue_array {items : List Value} (hrounds : items.length < rounds)
    (hitems : ∀ v ∈ items, ∀ rest, Stops rest →
      readValue rounds levels (v.compact ++ rest) = (v.echo levels).map (·, rest)) :
    readValue rounds (levels + 1) ((Value.array items).compact ++ rest) =
      ((Value.array items).echo (levels + 1)).map (·, rest) := by
  have hread := readItems_compactItems hitems hrounds rest
  rw [Value.compact, List.cons_append, readValue, skipBlanks_cons (by decide)]
  have hdigit : digit? 0x5b = none := rfl
  simp only [hdigit, hread, Value.echo]
  cases items.mapM (Value.echo levels) <;> rfl

/-- How a member of a map is read whose value may nest so many levels deep. -/
def memberReader (rounds levels : Nat) (name : String) (map : Members) (input : Bytes) :
    Except ReadError (Members × Bytes) :=
  match expectColon input with
  | .error e => .error e
  | .ok input =>
    match readValue rounds levels input with
    | .error e => .error e
    | .ok (value, rest) => .ok (Members.insert name value map, rest)

/-- What a member that was written adds to a map. -/
def memberEcho (levels : Nat) (map : Members) (member : String × Value) :
    Except ReadError Members :=
  (member.2.echo levels).map (Members.insert member.1 · map)

theorem memberReader_compact {name : String} {v : Value} (map : Members)
    (hread : readValue rounds levels (v.compact ++ rest) = (v.echo levels).map (·, rest)) :
    memberReader rounds levels name map (0x3a :: (v.compact ++ rest)) =
      (memberEcho levels map (name, v)).map (·, rest) := by
  rw [memberReader, expectColon_cons, memberEcho]
  dsimp only
  rw [hread]
  cases v.echo levels <;> rfl

theorem readValue_object {members : List (String × Value)} (hrounds : members.length < rounds)
    (hmembers : ∀ name v, (name, v) ∈ members → ∀ rest, Stops rest →
      readValue rounds levels (v.compact ++ rest) = (v.echo levels).map (·, rest)) :
    readValue rounds (levels + 1) ((Value.object members).compact ++ rest) =
      ((Value.object members).echo (levels + 1)).map (·, rest) := by
  have hread : readMembers (memberReader rounds levels) rounds true
      (Value.compactMembers members ++ rest) [] =
        (members.foldlM (memberEcho levels) []).map (·, rest) :=
    readMembers_compactMembers
      (fun name v hmem map rest hrest => memberReader_compact map (hmembers name v hmem rest hrest))
      hrounds rest []
  have hfold : members.foldlM (memberEcho levels) [] = Members.echo (levels + 1) members :=
    foldlM_insert (Value.echo levels) members []
  have hobject : readValue rounds (levels + 1) ((Value.object members).compact ++ rest) =
      (readMembers (memberReader rounds levels) rounds true
        (Value.compactMembers members ++ rest) []).map fun (map, rest) => (.object map, rest) := by
    rw [Value.compact, List.cons_append, readValue, skipBlanks_cons (by decide)]
    rfl
  rw [hobject, hread, hfold, Value.echo_object]
  cases Members.echo (levels + 1) members <;> rfl

end Values

/-- A value is read to the end of its text and comes out as its echo. -/
theorem readValue_compact (levels : Nat) (v : Value) {rounds : Nat}
    (hrounds : v.compact.length ≤ rounds) {rest : Bytes} (hrest : Stops rest) :
    readValue rounds levels (v.compact ++ rest) = (v.echo levels).map (·, rest) := by
  -- Only arrays and maps go on to the levels below, so the induction is on the levels.
  induction levels generalizing v rest with
  | zero =>
    cases v with
    | null => exact readValue_null
    | bool b => exact readValue_bool b
    | number n => exact readValue_number n hrest
    | text s => exact readValue_text s
    | array items =>
      rw [Value.compact, List.cons_append, readValue, skipBlanks_cons (by decide)]
      rfl
    | object members =>
      rw [Value.compact, List.cons_append, readValue, skipBlanks_cons (by decide)]
      rfl
  | succ levels ih =>
    cases v with
    | null => exact readValue_null
    | bool b => exact readValue_bool b
    | number n => exact readValue_number n hrest
    | text s => exact readValue_text s
    | array items =>
      rw [Value.compact, List.length_cons] at hrounds
      obtain ⟨hcount, hlength⟩ := length_compactItems items
      exact readValue_array (by omega) fun v hv rest hrest =>
        ih v (Nat.le_trans (hlength v hv) (by omega)) hrest
    | object members =>
      rw [Value.compact, List.length_cons] at hrounds
      obtain ⟨hcount, hlength⟩ := length_compactMembers members
      exact readValue_object (by omega) fun name v hv rest hrest =>
        ih v (Nat.le_trans (hlength name v hv) (by omega)) hrest

end ParameterLog.Json
