/-
Module: ParameterLog.Json.Reader
Purpose: reading JSON values from bytes.
Main exports: Json.readText, Json.readItems, Json.readMembers, Json.readValue, Value.ofBytes
-/
import ParameterLog.Bytes.Hex
import ParameterLog.Json.Numeral

/-!
Blanks are the space, the tab, the line feed and the carriage return. A text holds no control
character, its escapes are those of JSON, surrogates come in pairs, and its bytes are UTF-8. Items
and members are separated by single commas with none after the last. Arrays and maps nest at most
127 levels deep. Of members with one name the last counts. Nothing but blanks may follow the value.

Each reader takes the bytes from where the value starts and gives back the value with the bytes
after it. The loops over items and members are bounded by a number of rounds; as each round takes at
least one byte, the length of the whole text is always enough.
-/

namespace ParameterLog.Json

/-- The bytes from the first one that is no blank. -/
def skipBlanks : Bytes → Bytes
  | [] => []
  | byte :: rest =>
    if byte = 0x20 ∨ byte = 0x09 ∨ byte = 0x0a ∨ byte = 0x0d then skipBlanks rest else byte :: rest

/-- Takes the bytes of a word off the front. -/
def expectWord : Bytes → Bytes → Except ReadError Bytes
  | [], input => .ok input
  | _ :: _, [] => .error .unfinished
  | byte :: word, next :: rest => if byte = next then expectWord word rest else .error .malformed

/-- The byte that a one-letter escape stands for. -/
def escaped? (letter : UInt8) : Option UInt8 :=
  if letter = 0x22 ∨ letter = 0x5c ∨ letter = 0x2f then some letter
  else if letter = 0x62 then some 0x08
  else if letter = 0x66 then some 0x0c
  else if letter = 0x6e then some 0x0a
  else if letter = 0x72 then some 0x0d
  else if letter = 0x74 then some 0x09
  else none

/-- The number that four hexadecimal digits spell. -/
def codeUnit? (a b c d : UInt8) : Option Nat := do
  let a ← Bytes.hexValue? a
  let b ← Bytes.hexValue? b
  let c ← Bytes.hexValue? c
  let d ← Bytes.hexValue? d
  return ((a * 16 + b) * 16 + c) * 16 + d

/-- Whether a code unit is the first of a surrogate pair. -/
def leadsPair (unit : Nat) : Bool := 0xd800 ≤ unit && unit ≤ 0xdbff

/-- Whether a code unit is the second of a surrogate pair. -/
def endsPair (unit : Nat) : Bool := 0xdc00 ≤ unit && unit ≤ 0xdfff

/-- The UTF-8 bytes of a code point, last one first. -/
def codePointBytes (code : Nat) : Bytes := (String.utf8EncodeChar (Char.ofNat code)).reverse

/-- Reads the four digits of a code unit. -/
def readUnit : Bytes → Except ReadError (Nat × Bytes)
  | a :: b :: c :: d :: rest =>
    match codeUnit? a b c d with
    | some unit => .ok (unit, rest)
    | none => .error .malformed
  | _ => .error .unfinished

/-- Reads the second half of a surrogate pair and gives the code point of the pair. -/
def readPair (lead : Nat) (input : Bytes) : Except ReadError (Nat × Bytes) :=
  match expectWord [0x5c, 0x75] input with
  | .error e => .error e
  | .ok rest =>
    match readUnit rest with
    | .error e => .error e
    | .ok (unit, rest) =>
      if endsPair unit then .ok (0x10000 + (lead - 0xd800) * 0x400 + (unit - 0xdc00), rest)
      else .error .malformed

/-- Reads the digits of a numeric escape and gives the code point. -/
def readCodePoint (input : Bytes) : Except ReadError (Nat × Bytes) :=
  match readUnit input with
  | .error e => .error e
  | .ok (unit, rest) =>
    if endsPair unit then .error .malformed
    else if leadsPair unit then readPair unit rest
    else .ok (unit, rest)

/-- Reads an escape after its backslash and gives the bytes that it stands for, last one first. -/
def readEscape : Bytes → Except ReadError (Bytes × Bytes)
  | [] => .error .unfinished
  | letter :: rest =>
    match escaped? letter with
    | some byte => .ok ([byte], rest)
    | none =>
      if letter = 0x75 then
        match readCodePoint rest with
        | .error e => .error e
        | .ok (code, rest) => .ok (codePointBytes code, rest)
      else .error .malformed

theorem expectWord_length {word input rest : Bytes} (h : expectWord word input = .ok rest) :
    input.length = word.length + rest.length := by
  fun_induction expectWord word input with
  | case1 => simp_all
  | case2 => simp at h
  | case3 byte word tail ih =>
    have := ih h
    simp only [List.length_cons]
    omega
  | case4 => simp at h

theorem readUnit_length {input rest : Bytes} {unit : Nat} (h : readUnit input = .ok (unit, rest)) :
    input.length = rest.length + 4 := by
  unfold readUnit at h
  split at h
  · split at h
    · simp only [Except.ok.injEq, Prod.mk.injEq] at h
      obtain ⟨-, rfl⟩ := h
      simp
    · simp at h
  · simp at h

theorem readCodePoint_length {input rest : Bytes} {code : Nat}
    (h : readCodePoint input = .ok (code, rest)) : rest.length < input.length := by
  unfold readCodePoint at h
  split at h
  · simp at h
  · next unit after hunit =>
    have hlength := readUnit_length hunit
    split at h
    · simp at h
    · split at h
      · unfold readPair at h
        split at h
        · simp at h
        · next more hword =>
          have := expectWord_length hword
          split at h
          · simp at h
          · next low last hlow =>
            have := readUnit_length hlow
            split at h
            · simp only [Except.ok.injEq, Prod.mk.injEq] at h
              obtain ⟨-, rfl⟩ := h
              omega
            · simp at h
      · simp only [Except.ok.injEq, Prod.mk.injEq] at h
        obtain ⟨-, rfl⟩ := h
        omega

/-- An escape takes at least its letter. -/
theorem readEscape_length {input rest bytes : Bytes} (h : readEscape input = .ok (bytes, rest)) :
    rest.length < input.length := by
  unfold readEscape at h
  split at h
  · simp at h
  · split at h
    · simp only [Except.ok.injEq, Prod.mk.injEq] at h
      obtain ⟨-, rfl⟩ := h
      simp
    · split at h
      · split at h
        · simp at h
        · next code after hcode =>
          simp only [Except.ok.injEq, Prod.mk.injEq] at h
          obtain ⟨-, rfl⟩ := h
          have := readCodePoint_length hcode
          simp only [List.length_cons]
          omega
      · simp at h

/-- Reads a text up to the quote that closes it; `done` holds the bytes read so far, last one
first. -/
def scanText (input done : Bytes) : Except ReadError (Bytes × Bytes) :=
  match input with
  | [] => .error .unfinished
  | byte :: rest =>
    if byte = 0x22 then .ok (done.reverse, rest)
    else if byte = 0x5c then
      match _h : readEscape rest with
      | .error e => .error e
      | .ok (bytes, after) => scanText after (bytes ++ done)
    else if byte < 0x20 then .error .malformed
    else scanText rest (byte :: done)
termination_by input.length
decreasing_by
  · have := readEscape_length _h
    simp only [List.length_cons]
    omega
  · simp

/-- Reads a text after the quote that opens it. -/
def readText (input : Bytes) : Except ReadError (String × Bytes) :=
  match scanText input [] with
  | .error e => .error e
  | .ok (bytes, rest) =>
    match Bytes.toText? bytes with
    | some text => .ok (text, rest)
    | none => .error .malformed

/-- Takes the colon between a name and its value off the front. -/
def expectColon (input : Bytes) : Except ReadError Bytes :=
  match skipBlanks input with
  | [] => .error .unfinished
  | byte :: rest => if byte = 0x3a then .ok rest else .error .malformed

/-- Looks for the next item of an array: its start, or nothing and the bytes from the closing
bracket. -/
def nextItem (first : Bool) (input : Bytes) : Except ReadError (Bool × Bytes) :=
  match skipBlanks input with
  | [] => .error .unfinished
  | byte :: rest =>
    if byte = 0x5d then .ok (false, byte :: rest)
    else if first then .ok (true, byte :: rest)
    else if byte = 0x2c then
      match skipBlanks rest with
      | [] => .error .unfinished
      | byte :: rest => if byte = 0x5d then .error .malformed else .ok (true, byte :: rest)
    else .error .malformed

/-- Looks for the next member of a map: its name and what follows it, or nothing and the bytes from
the closing brace. -/
def nextMember (first : Bool) (input : Bytes) : Except ReadError (Option String × Bytes) :=
  match skipBlanks input with
  | [] => .error .unfinished
  | byte :: rest =>
    if byte = 0x7d then .ok (none, byte :: rest)
    else
      let start : Except ReadError Bytes :=
        if first then .ok (byte :: rest)
        else if byte = 0x2c then .ok (skipBlanks rest)
        else .error .malformed
      match start with
      | .error e => .error e
      | .ok [] => .error .unfinished
      | .ok (quote :: rest) =>
        if quote = 0x22 then (readText rest).map fun (name, rest) => (some name, rest)
        else .error .malformed

/-- Reads the items of an array after its opening bracket, and the bracket that closes it. -/
def readItems {α : Type} (item : Bytes → Except ReadError (α × Bytes)) :
    Nat → Bool → Bytes → List α → Except ReadError (List α × Bytes)
  | 0, _, _, _ => .error .malformed
  | rounds + 1, first, input, done =>
    match nextItem first input with
    | .error e => .error e
    | .ok (false, rest) => .ok (done.reverse, rest.drop 1)
    | .ok (true, rest) =>
      match item rest with
      | .error e => .error e
      | .ok (value, rest) => readItems item rounds false rest (value :: done)

/-- Reads the members of a map after its opening brace into a state, up to the brace that closes it.
`member` is given a name and the bytes after it. -/
def readMembers {σ : Type} (member : String → σ → Bytes → Except ReadError (σ × Bytes)) :
    Nat → Bool → Bytes → σ → Except ReadError (σ × Bytes)
  | 0, _, _, _ => .error .malformed
  | rounds + 1, first, input, state =>
    match nextMember first input with
    | .error e => .error e
    | .ok (none, rest) => .ok (state, rest.drop 1)
    | .ok (some name, rest) =>
      match member name state rest with
      | .error e => .error e
      | .ok (state, rest) => readMembers member rounds false rest state

/-- Arrays and maps nest at most this deep. -/
def deepest : Nat := 127

/-- Reads a value that nests at most `levels` deep; `rounds` bounds the items of an array. -/
def readValue (rounds : Nat) : Nat → Bytes → Except ReadError (Value × Bytes)
  | levels, input =>
    match skipBlanks input with
    | [] => .error .unfinished
    | byte :: rest =>
      if byte = 0x6e then (expectWord (Bytes.ofText "ull") rest).map (.null, ·)
      else if byte = 0x74 then (expectWord (Bytes.ofText "rue") rest).map (.bool true, ·)
      else if byte = 0x66 then (expectWord (Bytes.ofText "alse") rest).map (.bool false, ·)
      else if byte = 0x2d then (readNumber true rest).map fun (n, rest) => (.number n, rest)
      else if (digit? byte).isSome then
        (readNumber false (byte :: rest)).map fun (n, rest) => (.number n, rest)
      else if byte = 0x22 then (readText rest).map fun (s, rest) => (.text s, rest)
      else if byte = 0x5b then
        match levels with
        | 0 => .error .malformed
        | levels + 1 =>
          (readItems (readValue rounds levels) rounds true rest []).map fun (items, rest) =>
            (.array items, rest)
      else if byte = 0x7b then
        match levels with
        | 0 => .error .malformed
        | levels + 1 =>
          let member := fun name map input =>
            match expectColon input with
            | .error e => .error e
            | .ok input =>
              match readValue rounds levels input with
              | .error e => .error e
              | .ok (value, rest) => .ok (Members.insert name value map, rest)
          (readMembers member rounds true rest []).map fun (map, rest) => (.object map, rest)
      else .error .malformed

/-- Refuses a text that goes on after the value. -/
def atEnd {α : Type} : Except ReadError (α × Bytes) → Except ReadError α
  | .error e => .error e
  | .ok (value, rest) =>
    match skipBlanks rest with
    | [] => .ok value
    | _ => .error .malformed

/-- The value that a text holds. -/
def Value.ofBytes (bytes : Bytes) : Except ReadError Value :=
  atEnd (readValue bytes.length deepest bytes)

end ParameterLog.Json
