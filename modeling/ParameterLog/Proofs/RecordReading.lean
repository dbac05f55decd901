/-
Module: ParameterLog.Proofs.RecordReading
Purpose: what the stored forms of parameters and of sets are read back as.
Main exports: Shape.Reads, RecordShape.reads_object, Parameters.ofBytes_toBytes,
  SetRecord.ofBytes_document, Parameters.key_of_echo
-/
import ParameterLog.ParameterSet
import ParameterLog.Proofs.JsonEcho

/-!
A shape that meets the text of a document takes all of it and comes to a result that does not depend
on what stands behind (`Shape.Reads`). A record is read member by member, so its result is put
together from those of its members (`RecordShape.reads_object`). What is read back of parameters has
the identifiers, names and hashes that were written and the echoes of the maps and of the value
(`Parameters.ofBytes_toBytes`); what is read back of a set is the record that was written
(`SetRecord.ofBytes_document`). Parameters that come back the same have kept their identifier and
their key (`Parameters.key_of_echo`).
-/

namespace ParameterLog

open Json

/-! ### Shapes -/

/-- The shape reads the text of a value to its end, with a result that is always the same. -/
def Shape.Reads {α : Type} (shape : Shape α) (length levels : Nat) (v : Value)
    (result : Except ReadError α) : Prop :=
  ∀ rest, Stops rest → shape.fromText length levels (v.compact ++ rest) = result.map (·, rest)

namespace Shape

variable {α : Type} {length levels : Nat}

theorem Reads.congr {shape : Shape α} {v : Value} {result other : Except ReadError α}
    (h : shape.Reads length levels v result) (heq : result = other) :
    shape.Reads length levels v other := heq ▸ h

/-- A text that holds nothing else is read as a whole. -/
theorem Reads.ofBytes {shape : Shape α} {v : Value} {result : Except ReadError α}
    (h : shape.Reads v.compact.length deepest v result) : shape.ofBytes v.compact = result := by
  have hread := h [] stops_nil
  rw [List.append_nil] at hread
  rw [Shape.ofBytes, hread]
  cases result <;> rfl

theorem reads_ofText {expected : String} {parse : String → Except String α} {text : String} {a : α}
    (h : parse text = .ok a) :
    (ofText expected parse).Reads length levels (.text text) (.ok a) := by
  intro rest _
  rw [Value.compact, quoted_append, ofText]
  dsimp only
  rw [skipBlanks_cons opens_quote.blank]
  simp only [readText_quoted, h]
  rfl

theorem reads_text (text : String) : Shape.text.Reads length levels (.text text) (.ok text) :=
  reads_ofText rfl

theorem reads_hex (bytes : Bytes) :
    Shape.hex.Reads length levels (.text bytes.hex) (.ok bytes) := by
  apply reads_ofText
  rw [Bytes.ofHex_hex]
  rfl

theorem reads_map {members : Members} (hlength : (Value.object members).compact.length ≤ length) :
    Shape.map.Reads length levels (.object members) (members.echo levels) := by
  intro rest hrest
  have hread := readValue_compact levels (.object members) hlength hrest
  rw [Value.compact, List.cons_append, Value.echo_object] at hread
  rw [Value.compact, List.cons_append, map]
  dsimp only
  rw [skipBlanks_cons (by decide)]
  simp only [hread]
  cases members.echo levels <;> rfl

theorem reads_optional {v : Value} (hlength : v.compact.length ≤ length) :
    optional.Reads length levels v ((v.echo levels).map present) := by
  intro rest hrest
  rw [optional]
  dsimp only
  rw [readValue_compact levels v hlength hrest]
  cases v.echo levels <;> rfl

theorem reads_list {item : Shape α} {items : List Value} {result : Value → Except ReadError α}
    (hitems : ∀ v ∈ items, item.Reads length levels v (result v))
    (hlength : (Value.array items).compact.length ≤ length) :
    (list item).Reads length (levels + 1) (.array items) (items.mapM result) := by
  intro rest _
  have hcount : items.length < length := by
    rw [Value.compact, List.length_cons] at hlength
    exact Nat.lt_of_lt_of_le (length_compactItems items).1 (Nat.le_of_succ_le hlength)
  rw [Value.compact, List.cons_append, list]
  dsimp only
  rw [skipBlanks_cons (by decide)]
  exact readItems_compactItems hitems hcount rest

end Shape

/-! ### Records -/

namespace RecordShape

variable {δ α : Type} {record : RecordShape δ α} {length levels : Nat}

/-- What reading a member adds to a draft. -/
def takeMember (record : RecordShape δ α) (length levels : Nat) (draft : δ)
    (member : String × Value) : Except ReadError δ :=
  (record.memberFromText length levels member.1 draft (0x3a :: member.2.compact)).map (·.1)

/-- A member is read with a result that depends only on what has been read before. -/
def Takes (record : RecordShape δ α) (length levels : Nat) (name : String) (v : Value)
    (result : δ → Except ReadError δ) : Prop :=
  ∀ draft rest, Stops rest →
    record.memberFromText length levels name draft (0x3a :: (v.compact ++ rest)) =
      (result draft).map (·, rest)

/-- A member with a shape of its own is read by that shape, once. -/
theorem takes_of_reads {β : Type} {name : String} {dispensable : Bool} {shape : Shape β}
    {get : δ → Option β} {set : β → δ → δ} {v : Value} {result : Except ReadError β}
    (hfind : record.find? name = some (.of name dispensable shape get set))
    (hreads : shape.Reads length levels v result) :
    record.Takes length levels name v fun draft =>
      if (get draft).isSome then .error (.mismatch s!"duplicate field `{name}`")
      else result.map (set · draft) := by
  intro draft rest hrest
  simp only [memberFromText, hfind, Member.of]
  split
  · rfl
  · rw [expectColon_cons]
    dsimp only
    rw [hreads rest hrest]
    cases result <;> rfl

theorem Takes.takeMember_eq {name : String} {v : Value} {result : δ → Except ReadError δ}
    (h : record.Takes length levels name v result) (draft : δ) :
    record.takeMember length levels draft (name, v) = result draft := by
  have hread := h draft [] stops_nil
  rw [List.append_nil] at hread
  rw [takeMember, hread]
  cases result draft <;> rfl

/-- Members are read one after the other. -/
inductive TakesAll (record : RecordShape δ α) (length levels : Nat) :
    List (String × Value) → (δ → Except ReadError δ) → Prop
  | nil : TakesAll record length levels [] .ok
  | cons {name : String} {v : Value} {more : List (String × Value)}
    {result others : δ → Except ReadError δ} (first : record.Takes length levels name v result)
    (rest : TakesAll record length levels more others) :
    TakesAll record length levels ((name, v) :: more) fun draft => (result draft).bind others

namespace TakesAll

variable {members : List (String × Value)} {result : δ → Except ReadError δ}

theorem memberFromText_eq (h : record.TakesAll length levels members result) {name : String}
    {v : Value} (hmem : (name, v) ∈ members) (draft : δ) {rest : Bytes} (hrest : Stops rest) :
    record.memberFromText length levels name draft (0x3a :: (v.compact ++ rest)) =
      (record.takeMember length levels draft (name, v)).map (·, rest) := by
  induction h with
  | nil => contradiction
  | cons first others ih =>
    rcases List.mem_cons.mp hmem with heq | hmem
    · obtain ⟨rfl, rfl⟩ := Prod.mk.inj heq
      rw [first draft rest hrest, first.takeMember_eq]
    · exact ih hmem

theorem foldlM_eq (h : record.TakesAll length levels members result) (draft : δ) :
    members.foldlM (record.takeMember length levels) draft = result draft := by
  induction h generalizing draft with
  | nil => rfl
  | cons first others ih =>
    rw [List.foldlM_cons, first.takeMember_eq]
    exact congrArg _ (funext ih)

end TakesAll

/-- A record is read by reading its members one after the other. -/
theorem reads_object {members : List (String × Value)} {result : δ → Except ReadError δ}
    (h : record.TakesAll length levels members result)
    (hlength : (Value.object members).compact.length ≤ length) :
    record.shape.Reads length (levels + 1) (.object members)
      ((result record.blank).bind fun draft => (record.finish draft).mapError .mismatch) := by
  intro rest _
  have hcount : members.length < length := by
    rw [Value.compact, List.length_cons] at hlength
    exact Nat.lt_of_lt_of_le (length_compactMembers members).1 (Nat.le_of_succ_le hlength)
  have hread := readMembers_compactMembers
    (fun _ _ hmem draft _ hrest => h.memberFromText_eq hmem draft hrest) hcount rest record.blank
  rw [h.foldlM_eq] at hread
  rw [Value.compact, List.cons_append, shape]
  dsimp only
  rw [fromText, skipBlanks_cons (by decide)]
  simp only [hread]
  cases result record.blank with
  | error e => rfl
  | ok draft =>
    simp only [Except.map, Except.bind, finishText]
    cases record.finish draft <;> rfl

end RecordShape

/-! ### Documents -/

/-- The text of a member is no longer than that of its map. -/
theorem Json.Value.length_member_le {members : List (String × Value)} {length : Nat}
    (hlength : (Value.object members).compact.length ≤ length) (name : String) {v : Value}
    (hmem : (name, v) ∈ members) : v.compact.length ≤ length := by
  rw [compact, List.length_cons] at hlength
  exact Nat.le_trans ((length_compactMembers members).2 name v hmem) (Nat.le_of_succ_le hlength)

section Documents

variable {length levels : Nat}

open RecordShape (reads_object takes_of_reads)

/-- An action is read back with the echo of its configuration. -/
theorem Action.reads_document {action : Action}
    (hlength : action.document.compact.length ≤ length) :
    Action.record.shape.Reads length (levels + 1) action.document
      ((action.config.echo levels).map fun config => { action with config := config }) := by
  have hconfig : (Value.object action.config).compact.length ≤ length :=
    Value.length_member_le hlength "config" (by simp)
  refine (reads_object (.cons (takes_of_reads rfl (Shape.reads_text action.kind))
    (.cons (takes_of_reads rfl (Shape.reads_hex action.id))
    (.cons (takes_of_reads rfl (Shape.reads_text action.name))
    (.cons (takes_of_reads rfl (Shape.reads_text action.description))
    (.cons (takes_of_reads rfl (Shape.reads_map hconfig)) .nil))))) hlength).congr ?_
  cases action.config.echo levels <;> rfl

/-- A group is read back with the echo of its data. -/
theorem ParameterGroup.reads_document {group : ParameterGroup}
    (hlength : group.document.compact.length ≤ length) :
    ParameterGroup.record.shape.Reads length (levels + 1) group.document
      ((group.data.echo levels).map fun data => { group with data := data }) := by
  have hdata : (Value.object group.data).compact.length ≤ length :=
    Value.length_member_le hlength "data" (by simp)
  refine (reads_object (.cons (takes_of_reads rfl (Shape.reads_hex group.hash))
    (.cons (takes_of_reads rfl (Shape.reads_map hdata)) .nil)) hlength).congr ?_
  cases group.data.echo levels <;> rfl

/-- What is read back of parameters. -/
def Parameters.echo (levels : Nat) (p : Parameters) : Except ReadError Parameters :=
  (p.action.config.echo levels).bind fun config =>
    (p.group.data.echo levels).bind fun data =>
      ((Value.ofOption p.value).echo (levels + 1)).map fun value =>
        new p.id { p.action with config := config } { p.group with data := data }
          (Shape.present value)

theorem Parameters.reads_document {p : Parameters}
    (hlength : p.document.compact.length ≤ length) :
    Parameters.record.shape.Reads length (levels + 2) p.document (p.echo levels) := by
  have haction : p.action.document.compact.length ≤ length :=
    Value.length_member_le hlength "action" (by simp)
  have hgroup : p.group.document.compact.length ≤ length :=
    Value.length_member_le hlength "parameter_group" (by simp)
  have hvalue : (Value.ofOption p.value).compact.length ≤ length :=
    Value.length_member_le hlength "parameters" (by simp)
  refine (reads_object (.cons (takes_of_reads rfl (Shape.reads_hex p.id))
    (.cons (takes_of_reads rfl (Action.reads_document haction))
    (.cons (takes_of_reads rfl (ParameterGroup.reads_document hgroup))
    (.cons (takes_of_reads rfl (Shape.reads_optional hvalue)) .nil)))) hlength).congr ?_
  rw [Parameters.echo]
  cases p.action.config.echo levels with
  | error e => rfl
  | ok config =>
    cases p.group.data.echo levels with
    | error e => rfl
    | ok data => cases (Value.ofOption p.value).echo (levels + 1) <;> rfl

/-- The stored form of parameters is read back as their echo. -/
theorem Parameters.ofBytes_toBytes (p : Parameters) : ofBytes p.toBytes = p.echo 125 :=
  (reads_document (Nat.le_refl _)).ofBytes

/-- The text that a value is, which has no other result. -/
def textOf : Value → Except ReadError String
  | .text text => .ok text
  | _ => .error .malformed

theorem mapM_textOf (texts : List String) : (texts.map Value.text).mapM textOf = .ok texts := by
  rw [mapM_ok_iff, List.forall₂_map_left_iff]
  exact List.forall₂_same.mpr fun text _ => rfl

theorem Shape.reads_texts {texts : List String}
    (hlength : (Value.array (texts.map .text)).compact.length ≤ length) :
    (Shape.list Shape.text).Reads length (levels + 1) (.array (texts.map .text)) (.ok texts) := by
  refine (Shape.reads_list (fun v hv => ?_) hlength).congr (mapM_textOf texts)
  obtain ⟨text, -, rfl⟩ := List.mem_map.mp hv
  exact Shape.reads_text text

theorem SetRecord.reads_document {record : SetRecord}
    (hlength : record.document.compact.length ≤ length) :
    SetRecord.record.shape.Reads length (levels + 2) record.document (.ok record) := by
  have hmembers : (Value.array (record.members.map .text)).compact.length ≤ length :=
    Value.length_member_le hlength "parameters" (by simp)
  exact (reads_object (.cons (takes_of_reads rfl (Shape.reads_texts hmembers))
    (.cons (takes_of_reads rfl (Shape.reads_hex record.hash)) .nil)) hlength).congr rfl

/-- The stored form of a set is read back as the record that was written. -/
theorem SetRecord.ofBytes_document (record : SetRecord) :
    ofBytes record.document.compact = .ok record := by
  have hread : SetRecord.record.shape.Reads record.document.compact.length (125 + 2)
      record.document (.ok record) := reads_document (Nat.le_refl _)
  exact hread.ofBytes

end Documents

/-- Maps that are the same as what they are read back as have the same hash. -/
theorem contentHash_of_echo {levels : Nat} {map found : Members}
    (hecho : map.echo levels = .ok found) (hsame : sameMap found map = true) :
    contentHash found = contentHash map := by
  have hobject : (Value.object map).echo levels = .ok (.object found) := by
    rw [Value.echo_object, hecho]
    rfl
  have hcompact := Value.compact_of_echo hobject (by rwa [Value.same])
  rw [contentHash, hcompact, contentHash]

/-- Parameters are read back with their identifier. -/
theorem Parameters.id_of_echo {p q : Parameters} {levels : Nat} (hecho : p.echo levels = .ok q) :
    q.id = p.id := by
  obtain ⟨config, -, hecho⟩ := bind_eq_ok hecho
  obtain ⟨data, -, hecho⟩ := bind_eq_ok hecho
  obtain ⟨value, -, rfl⟩ := map_eq_ok hecho
  rfl

/-- Parameters that are read back as the same parameters have the same identifier and key. -/
theorem Parameters.key_of_echo {p q : Parameters} {levels : Nat} (hecho : p.echo levels = .ok q)
    (hsame : q.same p = true) : q.id = p.id ∧ q.key = p.key := by
  obtain ⟨config, hconfig, hecho⟩ := bind_eq_ok hecho
  obtain ⟨data, -, hecho⟩ := bind_eq_ok hecho
  obtain ⟨value, -, rfl⟩ := map_eq_ok hecho
  simp only [same, Action.same, ParameterGroup.same, new, Bool.and_eq_true] at hsame
  have hhash := contentHash_of_echo hconfig hsame.1.1.2.2
  refine ⟨rfl, ?_⟩
  rw [key, key, LookupKey.of, LookupKey.of, Action.configHash, Action.configHash, ← hhash]
  rfl

end ParameterLog
