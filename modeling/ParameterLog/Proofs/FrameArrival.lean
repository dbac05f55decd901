/-
Module: ParameterLog.Proofs.FrameArrival
Purpose: what frames are read does not depend on how the bytes arrive.
Main exports: Delivery.Unbroken, Delivery.Agrees, Delivery.agrees_exactly,
  Frame.agrees_receiveFields, Frame.receives, Frame.received_alike
-/
import ParameterLog.Frame.Delivery
import ParameterLog.Proofs.FrameFields

/-!
While no read fails (`Unbroken`), taking bytes off what arrives comes to what taking them off all
the bytes comes to, and what arrives afterwards are the bytes that are left (`Agrees`). This holds
of a number of bytes (`agrees_exactly`), wherever pieces end and reads are interrupted among them,
and is kept when one reading follows another (`Agrees.bind`). So it holds of the fields of a frame,
of a frame (`receives`), and of all frames that can be read (`received_alike`).
-/

namespace ParameterLog

namespace Bytes

theorem splitExactly?_append_of_le {n : Nat} {piece : Bytes} (h : n ≤ piece.length) (rest : Bytes) :
    splitExactly? n (piece ++ rest) = some (piece.take n, piece.drop n ++ rest) := by
  have hsplit := splitExactly?_append (piece.take n) (piece.drop n ++ rest)
  rwa [← List.append_assoc, List.take_append_drop, List.length_take_of_le h] at hsplit

theorem splitExactly?_append_of_length_le {n : Nat} {piece : Bytes} (h : piece.length ≤ n)
    (rest : Bytes) :
    splitExactly? n (piece ++ rest) =
      (splitExactly? (n - piece.length) rest).map fun (front, tail) => (piece ++ front, tail) := by
  have hsame : n = piece.length + (rest.take (n - piece.length)).length ↔
      (rest.take (n - piece.length)).length = n - piece.length := by omega
  simp only [splitExactly?, List.take_append, List.drop_append, List.take_of_length_le h,
    List.drop_eq_nil_of_le h, List.nil_append, List.length_append, eq_comm (a := _ + _), hsame]
  split <;> rfl

end Bytes

namespace Delivery

/-- The read fails and is not tried again. -/
def fails : Delivery → Bool
  | .failed _ => true
  | _ => false

/-- No read fails: bytes arrive, and reads are interrupted, but that is all. -/
def Unbroken (source : List Delivery) : Prop := ∀ delivery ∈ source, delivery.fails = false

instance (source : List Delivery) : Decidable (Unbroken source) :=
  inferInstanceAs (Decidable (∀ delivery ∈ source, _))

theorem Unbroken.tail {delivery : Delivery} {rest : List Delivery}
    (h : Unbroken (delivery :: rest)) : Unbroken rest :=
  fun d hd => h d (List.mem_cons_of_mem _ hd)

theorem Unbroken.cons_bytes {rest : List Delivery} (h : Unbroken rest) (piece : Bytes) :
    Unbroken (.bytes piece :: rest) := by
  intro delivery hmem
  rcases List.mem_cons.mp hmem with rfl | hmem
  · rfl
  · exact h delivery hmem

/-- Reading something off what arrives comes to what reading it off the bytes comes to, and what
arrives afterwards are the bytes that are left. -/
inductive Agrees {α : Type} :
    Except StoreError (Option (α × List Delivery)) → Option (α × Bytes) → Prop where
  /-- Too few bytes arrive. -/
  | short : Agrees (.ok none) none
  | taken (value : α) {rest : List Delivery} (unbroken : Unbroken rest) :
      Agrees (.ok (some (value, rest))) (some (value, content rest))

variable {source : List Delivery} {α β : Type}

/-- A number of bytes arrives just if there are as many. -/
theorem agrees_exactly (h : Unbroken source) (n : Nat) :
    Agrees (exactly n source) (Bytes.splitExactly? n (content source)) := by
  -- Along the answers to the reads; a piece that is too short leaves the rest of the bytes to go.
  fun_induction exactly n source with
  | case1 source => exact .taken [] h
  | case2 n =>
    rw [Bytes.splitExactly?_eq_none_iff.mpr (Nat.succ_pos n)]
    exact .short
  | case3 n rest ih => exact ih h.tail
  | case4 n message rest => cases h _ List.mem_cons_self
  | case5 n piece rest hlong =>
    rw [content, Bytes.splitExactly?_append_of_le hlong]
    exact .taken _ (h.tail.cons_bytes _)
  | case6 n piece rest hshort more remainder hmore ih =>
    have hrest := ih h.tail
    rw [content, Bytes.splitExactly?_append_of_length_le (Nat.le_of_not_le hshort)]
    generalize Bytes.splitExactly? (n + 1 - piece.length) (content rest) = whole at hrest ⊢
    rw [hmore] at hrest
    cases hrest with
    | taken _ unbroken => exact .taken _ unbroken
  | case7 n piece rest hshort hnone ih =>
    have hrest := ih h.tail
    rw [content, Bytes.splitExactly?_append_of_length_le (Nat.le_of_not_le hshort)]
    generalize Bytes.splitExactly? (n + 1 - piece.length) (content rest) = whole at hrest ⊢
    rw [hnone] at hrest
    cases hrest with
    | short => exact .short
  | case8 n piece rest hshort e herror ih =>
    have hrest := ih h.tail
    rw [herror] at hrest
    cases hrest

/-- One reading after another agrees if each of them does. -/
theorem Agrees.bind {arrived : Except StoreError (Option (α × List Delivery))}
    {whole : Option (α × Bytes)} (h : Agrees arrived whole)
    {next : Option (α × List Delivery) → Except StoreError (Option (β × List Delivery))}
    {nextWhole : α × Bytes → Option (β × Bytes)} (hshort : next none = .ok none)
    (htaken : ∀ value rest, Unbroken rest →
      Agrees (next (some (value, rest))) (nextWhole (value, content rest))) :
    Agrees (arrived >>= next) (whole.bind nextWhole) := by
  cases h with
  | short =>
    have hnext : (Except.ok none >>= next) = next none := rfl
    rw [hnext, hshort]
    exact .short
  | taken value unbroken => exact htaken value _ unbroken

theorem agrees_word (h : Unbroken source) :
    Agrees (word source) (Bytes.word? (content source)) := by
  have hfront := agrees_exactly h 2
  rw [word, Bytes.word?]
  generalize exactly 2 source = arrived at hfront ⊢
  generalize Bytes.splitExactly? 2 (content source) = whole at hfront ⊢
  cases hfront with
  | short => exact .short
  | taken front unbroken => exact .taken _ unbroken

theorem agrees_counted (h : Unbroken source) :
    Agrees (counted source) (Bytes.counted? (content source)) := by
  have hlength := agrees_word h
  rw [counted, Bytes.counted?]
  generalize word source = arrived at hlength ⊢
  generalize Bytes.word? (content source) = whole at hlength ⊢
  cases hlength with
  | short => exact .short
  | taken length unbroken => exact agrees_exactly unbroken length

/-- The first byte is among those that arrive, if any do. -/
theorem first_eq (h : Unbroken source) :
    match content source with
    | [] => first source = .ok none
    | byte :: left =>
      ∃ rest, first source = .ok (some (byte, rest)) ∧ content rest = left ∧ Unbroken rest := by
  fun_induction first source with
  | case1 => rfl
  | case2 rest ih => exact ih h.tail
  | case3 message rest => cases h _ List.mem_cons_self
  | case4 rest ih => exact ih h.tail
  | case5 byte piece rest => exact ⟨_, rfl, rfl, h.tail.cons_bytes _⟩

end Delivery

namespace Frame

open Delivery (Unbroken Agrees content)

variable {source : List Delivery}

/-- The fields of a frame arrive just if they are among the bytes. -/
theorem agrees_receiveFields (h : Unbroken source) :
    Agrees (receiveFields source) (fields? (content source)) := by
  rw [fields?_eq, receiveFields]
  refine (Delivery.agrees_word h).bind rfl fun total source h => ?_
  refine (Delivery.agrees_word h).bind rfl fun index source h => ?_
  refine (Delivery.agrees_counted h).bind rfl fun group source h => ?_
  exact (Delivery.agrees_counted h).bind rfl fun data rest h => .taken _ h

/-- What arrives next is what the bytes start with, and what arrives behind a frame are the bytes
behind it. -/
inductive Receives : Received → Next → Prop where
  | finished : Receives .finished .finished
  | failed (e : StoreError) : Receives (.failed e) (.failed e)
  | frame (frame : Frame) {rest : List Delivery} (unbroken : Unbroken rest) :
      Receives (.frame frame rest) (.frame frame (content rest))

theorem receives (h : Unbroken source) (offset : Nat) :
    Receives (receive offset source) (next offset (content source)) := by
  have hfirst := Delivery.first_eq h
  match hcontent : content source with
  | [] =>
    rw [hcontent] at hfirst
    simp only [receive, hfirst, next]
    exact .finished
  | version :: left =>
    rw [hcontent] at hfirst
    obtain ⟨rest, hfirst, rfl, hrest⟩ := hfirst
    simp only [receive, hfirst, next]
    by_cases hversion : version = frameVersion
    · have hfields := agrees_receiveFields hrest
      simp only [hversion, ne_eq, not_true_eq_false, if_false]
      generalize receiveFields rest = arrived at hfields ⊢
      generalize fields? (content rest) = whole at hfields ⊢
      cases hfields with
      | short => exact .failed _
      | taken frame unbroken => exact .frame frame unbroken
    · simp only [ne_eq, hversion, not_false_eq_true, if_true]
      exact .failed _

/-- Frames are received as they are scanned, if there are rounds enough. -/
theorem receiveFrom_eq (h : Unbroken source) {rounds : Nat}
    (hrounds : (content source).length < rounds) (offset : Nat) (done : List Frame) :
    receiveFrom rounds offset source done = scanFrom offset (content source) done := by
  induction rounds generalizing source offset done with
  | zero => omega
  | succ rounds ih =>
    have hreceives := receives h offset
    generalize hreceive : receive offset source = received at hreceives
    generalize hnext : next offset (content source) = following at hreceives
    cases hreceives with
    | finished =>
      have hends : Ends offset (content source) none := by simp [Ends, hnext]
      simp [receiveFrom, hreceive, scanFrom_eq_behind, scan_of_ends hends, Scan.behind]
    | failed e =>
      have hends : Ends offset (content source) (some e) := by simp [Ends, hnext]
      simp [receiveFrom, hreceive, scanFrom_eq_behind, scan_of_ends hends, Scan.behind]
    | @frame frame rest unbroken =>
      -- A frame takes at least its version byte off what arrives.
      have hsize := next_length hnext
      have hpos := frame.size_pos
      rw [scanFrom_frame done hnext, ← ih unbroken (by omega)]
      simp [receiveFrom, hreceive]

/-- What frames are read does not depend on how the bytes arrive. Wherever they are cut into pieces,
and however often reads are interrupted before, between and behind the pieces, reading frames as
long as they arrive gives the frames, stops at the offset and ends for the reason that it does when
all the bytes arrive in one piece, which is what a scan of the bytes comes to. -/
theorem received_alike (h : Unbroken source) (offset : Nat) :
    receiveAll offset source = receiveAll offset [.bytes (content source)] ∧
      receiveAll offset source = scan offset (content source) := by
  have hall {source : List Delivery} (h : Unbroken source) :
      receiveAll offset source = scan offset (content source) :=
    receiveFrom_eq h (Nat.lt_succ_self _) offset []
  have hpiece : Unbroken [.bytes (content source)] :=
    Unbroken.cons_bytes (fun _ hmem => absurd hmem List.not_mem_nil) _
  have hone := hall hpiece
  simp only [content, List.append_nil] at hone
  exact ⟨(hall h).trans hone.symm, hall h⟩

/-- A frame whose bytes arrive between interruptions, the version byte on its own, and the beginning
of a frame in the middle of whose length field the bytes end. -/
def trickle : List Delivery :=
  [.interrupted, .bytes [1], .interrupted, .interrupted, .bytes [1, 0, 0, 0, 1],
    .bytes [0, 7, 2, 0, 65], .interrupted, .bytes [66, 1, 2, 0], .bytes [0, 0, 1], .interrupted]

theorem received_alike_trickle :
    Unbroken trickle ∧
      receiveAll 3 trickle =
        receiveAll 3 [.bytes [1, 1, 0, 0, 0, 1, 0, 7, 2, 0, 65, 66, 1, 2, 0, 0, 0, 1]] ∧
      receiveAll 3 trickle = scan 3 [1, 1, 0, 0, 0, 1, 0, 7, 2, 0, 65, 66, 1, 2, 0, 0, 0, 1] ∧
      receiveAll 3 trickle = ⟨[⟨1, 0, [7], [65, 66]⟩], 15, some (.truncatedFrame 15)⟩ := by
  have hunbroken : Unbroken trickle := by decide
  obtain ⟨hpiece, hscan⟩ := received_alike hunbroken 3
  exact ⟨hunbroken, hpiece, hscan, by decide⟩

end Frame
end ParameterLog
