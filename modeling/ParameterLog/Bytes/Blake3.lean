/-
Module: ParameterLog.Bytes.Blake3
Purpose: the BLAKE3 hash of a byte string.
Main exports: Bytes.blake3
-/
import ParameterLog.Bytes.Pieces

/-!
Configurations, parameter groups and parameter sets are named by the BLAKE3 hash of a byte string.
The string is cut into chunks of 1024 bytes and a chunk into blocks of 64 bytes. A chunk's blocks
are compressed one into the other; the chunks' chaining values are the leaves of a binary tree whose
left subtrees are as large as powers of two allow. Joining neighbours level by level, an odd last
value moving up unjoined, builds that tree. The hash is the chaining value of the root,
little-endian.
-/

namespace ParameterLog.Blake3

/-- Eight words carried from one compression to the next. -/
abbrev Chain := Vector UInt32 8

/-- Sixteen words of message or of working state. -/
abbrev Words := Vector UInt32 16

/-- The chaining value that every chunk and every parent starts from. -/
def start : Chain :=
  #v[0x6A09E667, 0xBB67AE85, 0x3C6EF372, 0xA54FF53A, 0x510E527F, 0x9B05688C, 0x1F83D9AB, 0x5BE0CD19]

/-- Marks the first block of a chunk. -/
def chunkStart : UInt32 := 1
/-- Marks the last block of a chunk. -/
def chunkEnd : UInt32 := 2
/-- Marks the joining of two chaining values. -/
def parent : UInt32 := 4
/-- Marks the compression that gives the hash. -/
def root : UInt32 := 8

/-- Turns a word to the right. -/
def rotate (w : UInt32) (n : UInt32) : UInt32 := (w >>> n) ||| (w <<< (32 - n))

/-- Mixes two message words into four words of the state. -/
def mix (v : Words) (a b c d : Fin 16) (x y : UInt32) : Words :=
  let va := v[a] + v[b] + x
  let vd := rotate (v[d] ^^^ va) 16
  let vc := v[c] + vd
  let vb := rotate (v[b] ^^^ vc) 12
  let va := va + vb + y
  let vd := rotate (vd ^^^ va) 8
  let vc := vc + vd
  let vb := rotate (vb ^^^ vc) 7
  (((v.set a va).set b vb).set c vc).set d vd

/-- One round: the four columns, then the four diagonals. -/
def round (v m : Words) : Words :=
  let v := mix v 0 4 8 12 m[0] m[1]
  let v := mix v 1 5 9 13 m[2] m[3]
  let v := mix v 2 6 10 14 m[4] m[5]
  let v := mix v 3 7 11 15 m[6] m[7]
  let v := mix v 0 5 10 15 m[8] m[9]
  let v := mix v 1 6 11 12 m[10] m[11]
  let v := mix v 2 7 8 13 m[12] m[13]
  mix v 3 4 9 14 m[14] m[15]

/-- The order in which a round takes the words of the round before it. -/
def permute (m : Words) : Words :=
  #v[m[2], m[6], m[3], m[10], m[7], m[0], m[4], m[13], m[1], m[11], m[12], m[5], m[9], m[14], m[15],
    m[8]]

/-- Some rounds in a row, the message permuted between two of them. -/
def rounds : Nat → Words → Words → Words
  | 0, v, _ => v
  | n + 1, v, m => rounds n (round v m) (permute m)

/-- Compresses one block into a chaining value. -/
def compress (cv : Chain) (block : Words) (counter : Nat) (length flags : UInt32) : Chain :=
  let v : Words :=
    #v[cv[0], cv[1], cv[2], cv[3], cv[4], cv[5], cv[6], cv[7],
      start[0], start[1], start[2], start[3],
      UInt32.ofNat counter, UInt32.ofNat (counter / 4294967296), length, flags]
  let v := rounds 7 v block
  #v[v[0] ^^^ v[8], v[1] ^^^ v[9], v[2] ^^^ v[10], v[3] ^^^ v[11], v[4] ^^^ v[12], v[5] ^^^ v[13],
    v[6] ^^^ v[14], v[7] ^^^ v[15]]

/-- The little-endian words of a byte string, the last one filled up with zeros. -/
def words : Bytes → List UInt32
  | a :: b :: c :: d :: rest =>
    (a.toUInt32 ||| (b.toUInt32 <<< 8) ||| (c.toUInt32 <<< 16) ||| (d.toUInt32 <<< 24)) ::
      words rest
  | [] => []
  | partialWord => [UInt32.ofNat (Bytes.ofLittleEndian partialWord)]

/-- A block of at most 64 bytes as sixteen words. -/
def blockWords (block : Bytes) : Words :=
  let ws := (words block).toArray
  Vector.ofFn fun i => ws.getD i 0

/-- Compresses the blocks of a chunk one into the other; `flags` go to the last of them. -/
def foldBlocks (counter : Nat) (flags : UInt32) : UInt32 → Chain → List Bytes → Chain
  | first, cv, [] => compress cv (blockWords []) counter 0 (first ||| chunkEnd ||| flags)
  | first, cv, [last] =>
    compress cv (blockWords last) counter (UInt32.ofNat last.length) (first ||| chunkEnd ||| flags)
  | first, cv, block :: rest =>
    foldBlocks counter flags 0 (compress cv (blockWords block) counter 64 first) rest

/-- The chaining value of the chunk with a number. -/
def chunkValue (flags : UInt32) (counter : Nat) (chunk : Bytes) : Chain :=
  foldBlocks counter flags chunkStart start (Bytes.pieces 64 chunk)

/-- Joins two chaining values. -/
def join (flags : UInt32) (left right : Chain) : Chain :=
  compress start (left ++ right) 0 64 (parent ||| flags)

/-- Joins neighbours; an odd last value stays as it is. -/
def joinPairs : List Chain → List Chain
  | left :: right :: rest => join 0 left right :: joinPairs rest
  | rest => rest

theorem length_joinPairs (values : List Chain) :
    (joinPairs values).length = (values.length + 1) / 2 := by
  fun_induction joinPairs values with
  | case1 left right rest ih => simp only [List.length_cons, ih]; omega
  | case2 rest h =>
    match rest, h with
    | [], _ => simp
    | [_], _ => simp
    | a :: b :: tail, h => exact absurd rfl (h a b tail)

/-- The root over the chaining values of two or more chunks. -/
def rootOf (values : List Chain) : Chain :=
  match values with
  | [] => start
  | [only] => only
  | [left, right] => join root left right
  | a :: b :: c :: rest => rootOf (joinPairs (a :: b :: c :: rest))
termination_by values.length
decreasing_by simp only [length_joinPairs, List.length_cons]; omega

/-- The bytes of a chaining value. -/
def chainBytes (cv : Chain) : Bytes := cv.toList.flatMap fun w => Bytes.littleEndian 4 w.toNat

theorem length_chainBytes (cv : Chain) : (chainBytes cv).length = 32 := by
  simp [chainBytes, List.length_flatMap, List.map_const']

end ParameterLog.Blake3

namespace ParameterLog.Bytes

/-- The BLAKE3 hash of a byte string, 32 bytes long. -/
def blake3 (bytes : Bytes) : Bytes :=
  let chunks := pieces 1024 bytes
  Blake3.chainBytes <|
    match chunks with
    | [] => Blake3.chunkValue Blake3.root 0 []
    | [only] => Blake3.chunkValue Blake3.root 0 only
    | _ => Blake3.rootOf (chunks.mapIdx fun counter chunk => Blake3.chunkValue 0 counter chunk)

@[simp] theorem length_blake3 (bytes : Bytes) : (blake3 bytes).length = 32 := by
  simp [blake3, Blake3.length_chainBytes]

end ParameterLog.Bytes
