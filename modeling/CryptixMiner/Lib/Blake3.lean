import CryptixMiner.Lib.Loop
import CryptixMiner.Lib.Words
import Mathlib.Data.Nat.Sqrt

/-! The hash mode of BLAKE3 with 32 bytes of output, for messages of any length: blocks, chunks and the tree
    over the chunks. -/

namespace Blake3
open Words

abbrev Value := Vector UInt32 8

abbrev Block := Vector UInt32 16

/-! ### The compression -/

/-- The first 32 bits of the fraction of a square root. -/
def rootFraction (n : Nat) : UInt32 := UInt32.ofNat (Nat.sqrt (n * 2 ^ 64))

/-- From the square roots of the first eight primes. -/
def IV : Value := Vector.ofFn fun i => rootFraction ([2, 3, 5, 7, 11, 13, 17, 19].getD i.val 0)

def MSG_PERMUTATION : List Nat := [2, 6, 3, 10, 7, 0, 4, 13, 1, 11, 12, 5, 9, 14, 15, 8]

def permute (m : Block) : Block := Vector.ofFn fun i => m[MSG_PERMUTATION.getD i.val 0]!

/-- The words of a round: permuted once for each round before it. -/
def schedule (m : Block) : Nat → Block
  | 0 => m
  | round + 1 => permute (schedule m round)

def rotr (x : UInt32) (n : Nat) : UInt32 := UInt32.ofBitVec (x.toBitVec.rotateRight n)

/-- One word from each row of the state. -/
structure Quarter where
  a : UInt32
  b : UInt32
  c : UInt32
  d : UInt32

/-- Half of the mixing, with one word of the block and two rotations. -/
def Quarter.half (q : Quarter) (m : UInt32) (r s : Nat) : Quarter :=
  let a := q.a + q.b + m
  let d := rotr (q.d ^^^ a) r
  let c := q.c + d
  ⟨a, rotr (q.b ^^^ c) s, c, d⟩

def Quarter.g (q : Quarter) (mx my : UInt32) : Quarter := (q.half mx 16 12).half my 8 7

def Quarter.row (q : Quarter) : Nat → UInt32
  | 0 => q.a
  | 1 => q.b
  | 2 => q.c
  | _ => q.d

/-- Quarter `i`: with slant 0 a column, with slant 1 a diagonal. -/
def quarter (v : Block) (slant i : Nat) : Quarter :=
  ⟨v[i]!, v[4 + (i + slant) % 4]!, v[8 + (i + 2 * slant) % 4]!, v[12 + (i + 3 * slant) % 4]!⟩

/-- Mixes the four quarters at once. The word in row `r` and column `c` is in quarter `c - r * slant`. -/
def mixQuarters (slant : Nat) (m v : Block) : Block := Vector.ofFn fun k =>
  let i := (k.val % 4 + 3 * (k.val / 4) * slant) % 4
  ((quarter v slant i).g m[8 * slant + 2 * i]! m[8 * slant + 2 * i + 1]!).row (k.val / 4)

def round (m v : Block) : Block := mixQuarters 1 m (mixQuarters 0 m v)

def initial (h : Value) (counter : UInt64) (len flags : UInt32) : Block :=
  #v[h[0]!, h[1]!, h[2]!, h[3]!, h[4]!, h[5]!, h[6]!, h[7]!, IV[0]!, IV[1]!, IV[2]!, IV[3]!,
    counter.toUInt32, (counter >>> 32).toUInt32, len, flags]

/-- The first half of the output of the compression. -/
def compress (h : Value) (m : Block) (counter : UInt64) (len flags : UInt32) : Value :=
  let v := Loop.forRange 0 7 (fun r v => round (schedule m r) v) (initial h counter len flags)
  Vector.ofFn fun i => v[i.val]! ^^^ v[i.val + 8]!

/-! ### The tree -/

def CHUNK_START : UInt32 := 1
def CHUNK_END : UInt32 := 2
def PARENT : UInt32 := 4
def ROOT : UInt32 := 8

/-- A compression that is still to be done: as the root or below it. -/
structure Node where
  h : Value
  m : Block
  counter : UInt64
  len : UInt32
  flags : UInt32

def Node.value (n : Node) : Value := compress n.h n.m n.counter n.len n.flags

def Node.root (n : Node) : Value := compress n.h n.m 0 n.len (n.flags ||| ROOT)

/-- The words of at most 64 bytes, filled up with zeros. -/
def blockWords (block : List UInt8) : Block :=
  Vector.ofFn fun i => UInt32.ofBitVec (ofLeBytes 32 (fun k => block.getD (4 * i.val + k) 0) 4)

/-- Block `i` of a chunk, after the chaining value `h`. -/
def blockNode (counter : UInt64) (chunk : List UInt8) (i : Nat) (h : Value) : Node where
  h := h
  m := blockWords ((chunk.drop (64 * i)).take 64)
  counter := counter
  len := UInt32.ofNat (min 64 (chunk.length - 64 * i))
  flags := (if i = 0 then CHUNK_START else 0) ||| (if chunk.length ≤ 64 * (i + 1) then CHUNK_END else 0)

/-- A chunk of at most 1024 bytes: its blocks are chained. The empty chunk has one block. -/
def chunkNode (counter : UInt64) (chunk : List UInt8) : Node :=
  let last := (chunk.length - 1) / 64
  blockNode counter chunk last (Loop.forRange 0 last (fun i h => (blockNode counter chunk i h).value) IV)

def parentNode (left right : Value) : Node := ⟨IV, left ++ right, 0, 64, PARENT⟩

/-- The bytes of the left subtree: the largest power of two of full chunks that leaves a byte. -/
def leftLen (len : Nat) : Nat := 1024 * 2 ^ ((len - 1) / 1024).log2

theorem leftLen_lt (len : Nat) (h : 1024 < len) : leftLen len < len := by
  have hpos : (len - 1) / 1024 ≠ 0 := by omega
  have hle := Nat.log2_self_le hpos
  have hdiv := Nat.div_mul_le_self (len - 1) 1024
  unfold leftLen
  omega

theorem leftLen_pos (len : Nat) : 0 < leftLen len := Nat.mul_pos (by decide) (Nat.two_pow_pos _)

/-- The tree over a message whose first chunk has number `counter`. -/
def tree (counter : UInt64) (message : List UInt8) : Node :=
  if _ : message.length ≤ 1024 then chunkNode counter message
  else
    let left := leftLen message.length
    parentNode (tree counter (message.take left)).value
      (tree (counter + UInt64.ofNat (left / 1024)) (message.drop left)).value
termination_by message.length
decreasing_by
  · have hlt := leftLen_lt message.length (by omega)
    rw [List.length_take]
    omega
  · have hpos := leftLen_pos message.length
    rw [List.length_drop]
    omega

def valueBytes (h : Value) : List UInt8 := h.toList.flatMap fun w => leBytes 4 w.toBitVec

def hash (message : List UInt8) : List UInt8 := valueBytes (tree 0 message).root

theorem length_hash (message : List UInt8) : (hash message).length = 32 := by
  rw [hash, valueBytes, List.length_flatMap]
  simp [length_leBytes]

end Blake3
