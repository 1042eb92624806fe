import CryptixMiner.Lib.Sha3
import CryptixMiner.Theorems.Blake3
import CryptixMiner.Theorems.PowHashers

/-! The hash functions of the kernels are the general ones on 32 bytes, wherever the output is written. -/

namespace CryptixMiner
open Words Device Keccak Sha3

/-! ### Memory -/

namespace Memory
variable {mem : Memory} {a n : Nat}

theorem length_read : (mem.read a n).length = n := by simp [read]

theorem getD_read (k : Nat) : (mem.read a n).getD k 0 = if k < n then mem (a + k) else 0 := by
  by_cases hk : k < n
  · simp [read, hk]
  · simp [read, hk]

theorem write_nil : mem.write a [] = mem := by
  funext p
  have hout : ¬(a ≤ p ∧ p < a + 0) := by omega
  exact if_neg hout

theorem write_write {l : List UInt8} (hl : l.length = n) (m : List UInt8) :
    (mem.write a l).write (a + n) m = mem.write a (l ++ m) := by
  subst hl
  funext p
  simp only [write, List.length_append]
  by_cases hm : a + l.length ≤ p ∧ p < a + l.length + m.length
  · have hin : a ≤ p ∧ p < a + (l.length + m.length) := by omega
    have hsub : p - (a + l.length) = p - a - l.length := by omega
    rw [if_pos hm, if_pos hin, List.getD_append_right _ _ _ _ (by omega), hsub]
  · rw [if_neg hm]
    by_cases hl : a ≤ p ∧ p < a + l.length
    · have hin : a ≤ p ∧ p < a + (l.length + m.length) := by omega
      rw [if_pos hl, if_pos hin, List.getD_append _ _ _ _ (by omega)]
    · have hout : ¬(a ≤ p ∧ p < a + (l.length + m.length)) := by omega
      rw [if_neg hl, if_neg hout]

theorem update_eq_write (b : UInt8) : Function.update mem a b = mem.write a [b] := by
  funext p
  by_cases hp : p = a
  · subst hp
    simp [write]
  · have hout : ¬(a ≤ p ∧ p < a + [b].length) := by simp only [List.length_singleton]; omega
    rw [Function.update_of_ne hp, write, if_neg hout]

theorem storeLe_eq {w : Nat} (n : Nat) (value : BitVec w) (mem : Memory) (out offset : Nat) :
    storeLe n value mem out offset = mem.write (out + offset) (leBytes n value) := by
  refine Loop.forRange_inv (P := fun n mem' => mem' = mem.write (out + offset) (leBytes n value)) (Nat.zero_le n)
    write_nil.symm fun k mem' _ _ ih => ?_
  have hlast : leBytes (k + 1) value = leBytes k value ++ [leByte value k] := by simp [leBytes, List.range_succ]
  rw [ih, hlast, ← write_write (length_leBytes value), update_eq_write]

/-! ### SHA3-256 -/

theorem load64Le_eq {i : Nat} (hi : i < 4) (input : Nat) :
    mem.load64Le input (8 * i) = word (mem.read input 32) i := by
  have hbyte : ∀ k < 8, mem (input + 8 * i + k) = (mem.read input 32).getD (8 * i + k) 0 := fun k hk => by
    rw [getD_read, if_pos (by omega), Nat.add_assoc]
  rw [load64Le, word, ofLeBytes_congr hbyte]

/-- The message and both ends of its padding, xored into an empty state. -/
theorem sha3_state_eq (w0 w1 w2 w3 : UInt64) :
    let st : KeccakState := Vector.replicate 25 0
    let st := st.set! 0 (st[0]! ^^^ w0)
    let st := st.set! 1 (st[1]! ^^^ w1)
    let st := st.set! 2 (st[2]! ^^^ w2)
    let st := st.set! 3 (st[3]! ^^^ w3)
    let st := st.set! 4 (st[4]! ^^^ 0x06)
    st.set! 16 (st[16]! ^^^ ((0x80 : UInt64) <<< 56)) =
      Vector.ofFn fun i => ([w0, w1, w2, w3] ++ padWords 4 0x06).getD i.val 0 := by
  have htop : (0x80 : UInt64) <<< 56 = 0x8000000000000000 := by decide
  refine Vector.ext fun j hj => ?_
  rw [Vector.getElem_ofFn, htop]
  simp (disch := decide) only [Loop.getElem_set! hj, Loop.getElem!_set!]
  interval_cases j <;> simp [padWords]

theorem sha3_256_32bytes_eq {keccakF1600 : KeccakState → KeccakState} (hkeccak : ∀ st, keccakF1600 st = f1600 st)
    (mem : Memory) (input output : Nat) :
    mem.sha3_256_32bytes keccakF1600 input output = mem.write output (sha3_256 (mem.read input 32)) := by
  -- The message is the four words that are loaded.
  have hmessage : mem.read input 32 = wordBytes [mem.load64Le input 0, mem.load64Le input 8, mem.load64Le input 16,
      mem.load64Le input 24] := by
    have hwords : wordBytes ((List.range 4).map (word (mem.read input 32))) = mem.read input 32 :=
      wordBytes_map_word length_read
    have hloads : (List.range 4).map (word (mem.read input 32)) = [mem.load64Le input 0, mem.load64Le input 8,
        mem.load64Le input 16, mem.load64Le input 24] := by
      rw [load64Le_eq (i := 0) (by decide), load64Le_eq (i := 1) (by decide), load64Le_eq (i := 2) (by decide),
        load64Le_eq (i := 3) (by decide)]
      rfl
    rw [← hloads, hwords]
  have hstore (st : KeccakState) : store64Le st[3]! (store64Le st[2]! (store64Le st[1]! (store64Le st[0]! mem output 0)
      output 8) output 16) output 24 = mem.write output ((stateBytes st).take 32) := by
    have hbytes : wordBytes [st[0]!, st[1]!, st[2]!, st[3]!] = leBytes 8 st[0]!.toBitVec ++ leBytes 8 st[1]!.toBitVec ++
        leBytes 8 st[2]!.toBitVec ++ leBytes 8 st[3]!.toBitVec := by simp [wordBytes]
    rw [take_stateBytes, hbytes]
    simp only [store64Le, storeLe_eq, Nat.add_zero]
    rw [write_write (by simp), write_write (by simp), write_write (by simp)]
  have hstate := sha3_state_eq (mem.load64Le input 0) (mem.load64Le input 8) (mem.load64Le input 16)
    (mem.load64Le input 24)
  simp only at hstate
  simp only [sha3_256_32bytes, hstate, hkeccak, hstore]
  rw [hmessage, sha3_256_wordBytes _ (by simp)]
  rfl

/-! ### BLAKE3 -/

theorem load32Le_eq {i : Nat} (hi : i < 8) (input : Nat) :
    mem.load32Le input (i * 4) = (Blake3.blockWords (mem.read input 32))[i]! := by
  have hlt : i < 16 := by omega
  have hbyte : ∀ k < 4, mem (input + i * 4 + k) = (mem.read input 32).getD (4 * i + k) 0 := fun k hk => by
    have hindex : input + (4 * i + k) = input + i * 4 + k := by omega
    rw [getD_read, if_pos (by omega), hindex]
  rw [load32Le, ofLeBytes_congr hbyte, Loop.getElem!_eq _ hlt, Blake3.blockWords, Vector.getElem_ofFn]

/-- The message words: eight are loaded, the others stay zero. -/
theorem message_eq (mem : Memory) (input : Nat) :
    Loop.forRange 0 8 (fun i (m : Vector UInt32 16) => m.set! i (mem.load32Le input (i * 4))) (Vector.replicate 16 0) =
      Blake3.blockWords (mem.read input 32) := by
  refine Vector.ext fun i hi => ?_
  rw [Loop.getElem_forRange_set! (fun i _ => mem.load32Le input (i * 4)) _ 8 hi]
  by_cases h8 : i < 8
  · rw [if_pos h8, load32Le_eq h8, Loop.getElem!_eq _ hi]
  · have hbyte : ∀ k < 4, (mem.read input 32).getD (4 * i + k) 0 = leByte (0 : BitVec 32) k := fun k hk => by
      rw [getD_read, if_neg (by omega)]
      simp [leByte]
    rw [if_neg h8, Blake3.blockWords, Vector.getElem_ofFn, ofLeBytes_congr hbyte, ofLeBytes_leByte (by decide),
      Vector.getElem_replicate]
    rfl

theorem storeWords_eq (f : Nat → UInt32) (mem : Memory) (output n : Nat) :
    Loop.forRange 0 n (fun i mem => store32Le (f i) mem output (i * 4)) mem =
      mem.write output ((List.range n).flatMap fun i => leBytes 4 (f i).toBitVec) := by
  refine Loop.forRange_inv (P := fun n mem' =>
    mem' = mem.write output ((List.range n).flatMap fun i => leBytes 4 (f i).toBitVec)) (Nat.zero_le n)
    write_nil.symm fun i mem' _ _ ih => ?_
  have hlen : ((List.range i).flatMap fun i => leBytes 4 (f i).toBitVec).length = i * 4 := by
    simp [List.length_flatMap]
  rw [ih, store32Le, storeLe_eq, write_write hlen, List.range_succ, List.flatMap_append, List.flatMap_singleton]

end Memory

/-- A message of 32 bytes is one block of one chunk, and the chunk is the root. -/
theorem blake3_hash_of_length {message : List UInt8} (hlen : message.length = 32) : Blake3.hash message =
    Blake3.valueBytes (Blake3.compress Blake3.IV (Blake3.blockWords message) 0 32 (1 ||| 2 ||| 8)) := by
  have htake : (message.drop (64 * 0)).take 64 = message := by
    rw [Nat.mul_zero, List.drop_zero, List.take_of_length_le (by omega)]
  rw [Blake3.hash, Blake3.tree, dif_pos (by omega), Blake3.chunkNode, hlen, Loop.forRange_self, Blake3.Node.root,
    Blake3.blockNode, htake, hlen]
  rfl

theorem valueBytes_eq (f : Nat → UInt32) : Blake3.valueBytes (Vector.ofFn fun i => f i.val) =
    (List.range 8).flatMap fun i => leBytes 4 (f i).toBitVec := by
  rw [Blake3.valueBytes, Vector.toList_ofFn]
  rfl

/-- The output words of the rounds from the initial state are the hash. -/
theorem rounds_hash {message : List UInt8} (hlen : message.length = 32) :
    let v := (Loop.forRange 0 7 (fun round (s : Vector UInt32 16 × Vector UInt32 16) =>
      (Cuda.blake3Round s.1 s.2, if round + 1 < 7 then Cuda.blake3Permute s.2 else s.2))
        (Blake3.initial Cuda.BLAKE3_IV 0 32 (1 ||| 2 ||| 8), Blake3.blockWords message)).1
    ((List.range 8).flatMap fun i => leBytes 4 (v[i]! ^^^ v[i + 8]!).toBitVec) = Blake3.hash message := by
  simp only [Cuda.rounds_eq]
  rw [blake3_hash_of_length hlen, Blake3.compress, Cuda.BLAKE3_IV_eq]
  generalize Loop.forRange 0 7 _ _ = v
  exact (valueBytes_eq fun i => v[i]! ^^^ v[i + 8]!).symm

/-- The state before the rounds holds the tables and the constants of a root block of 32 bytes. -/
theorem initial_eq : Blake3.initial Cuda.BLAKE3_IV 0 32 (1 ||| 2 ||| 8) =
    #v[0x6A09E667, 0xBB67AE85, 0x3C6EF372, 0xA54FF53A, 0x510E527F, 0x9B05688C, 0x1F83D9AB, 0x5BE0CD19,
      0x6A09E667, 0xBB67AE85, 0x3C6EF372, 0xA54FF53A, 0, 0, 32, 11] := by
  simp only [Blake3.initial, Cuda.BLAKE3_IV_eq]
  rfl

namespace Cuda

theorem blake3Compress32At_eq (mem : Memory) (input output : Nat) :
    blake3Compress32At mem input output = mem.write output (Blake3.hash (mem.read input 32)) := by
  rw [← rounds_hash Memory.length_read, ← Memory.storeWords_eq, ← Memory.message_eq]
  have hv : ((((((((Loop.forRange 0 8 (fun i (v : Vector UInt32 16) => v.set! i BLAKE3_IV[i]!) (Vector.replicate 16 0)).set! 8
      BLAKE3_IV[0]!).set! 9 BLAKE3_IV[1]!).set! 10 BLAKE3_IV[2]!).set! 11 BLAKE3_IV[3]!).set! 12 0).set! 13 0).set! 14
        32).set! 15 (1 ||| 2 ||| 8) = Blake3.initial BLAKE3_IV 0 32 (1 ||| 2 ||| 8) := by
    rw [initial_eq]
    decide
  rw [← hv]
  rfl

end Cuda

namespace OpenCl

theorem blake3Compress32At_eq (mem : Memory) (input output : Nat) :
    blake3Compress32At mem input output = mem.write output (Blake3.hash (mem.read input 32)) := by
  rw [← rounds_hash Memory.length_read, ← Memory.storeWords_eq, ← Memory.message_eq]
  have hv : ((((((((Loop.forRange 0 8 (fun i (v : Vector UInt32 16) => v.set! i
      (Loop.forRange 0 8 (fun i (cv : Vector UInt32 8) => cv.set! i BLAKE3_IV[i]!) (Vector.replicate 8 0))[i]!)
        (Vector.replicate 16 0)).set! 8 BLAKE3_IV[0]!).set! 9 BLAKE3_IV[1]!).set! 10 BLAKE3_IV[2]!).set! 11
          BLAKE3_IV[3]!).set! 12 0).set! 13 0).set! 14 32).set! 15 (1 ||| 2 ||| 8) =
            Blake3.initial Cuda.BLAKE3_IV 0 32 (1 ||| 2 ||| 8) := by
    rw [initial_eq]
    decide
  have hout (v : Vector UInt32 16) {i : Nat} (hi : i < 8) : (Loop.forRange 0 8 (fun i (outWords : Vector UInt32 8) =>
      outWords.set! i (v[i]! ^^^ v[i + 8]!)) (Vector.replicate 8 0))[i]! = v[i]! ^^^ v[i + 8]! := by
    rw [Loop.getElem!_eq _ hi, Loop.getElem_forRange_set! (fun i _ => v[i]! ^^^ v[i + 8]!) _ 8 hi, if_pos hi]
  rw [← hv]
  unfold blake3Compress32At
  refine Loop.forRange_congr (Nat.zero_le 8) fun i mem' _ hi => ?_
  simp only [hout _ hi]
  rfl

end OpenCl

/-! ### In place -/

/-- In place, a function that writes a hash of what it reads turns bytes into that hash. -/
theorem toList_inPlace {f : Memory → Nat → Nat → Memory} {g : List UInt8 → List UInt8}
    (hf : ∀ (mem : Memory) (input output : Nat), f mem input output = mem.write output (g (mem.read input 32)))
    (input : Bytes 32) (hlen : (g input.toList).length = 32) : (Memory.inPlace f input).toList = g input.toList := by
  have hread : Memory.read (fun p => input[p]!) 0 32 = input.toList := by
    refine List.ext_getElem (by simp [Memory.read]) fun k hk _ => ?_
    simp only [Memory.length_read] at hk
    simp [Memory.read, hk]
  rw [Memory.inPlace, hf, hread]
  refine List.ext_getElem (by simp [hlen]) fun k hk hk' => ?_
  have hin : 0 ≤ k ∧ k < 0 + (g input.toList).length := by omega
  simp only [Vector.getElem_toList, Vector.getElem_ofFn, Memory.write, if_pos hin, Nat.sub_zero]
  rw [List.getD_eq_getElem _ _ hk']

namespace Cuda

theorem toList_sha3_256_32bytes (input : Bytes 32) : (sha3_256_32bytes input).toList = sha3_256 input.toList :=
  toList_inPlace (Memory.sha3_256_32bytes_eq keccakF1600_eq) input (length_sha3_256 _)

theorem toList_blake3Compress32 (input : Bytes 32) : (blake3Compress32 input).toList = Blake3.hash input.toList :=
  toList_inPlace blake3Compress32At_eq input (Blake3.length_hash _)

end Cuda

/-- Both kernels bring the same hash functions. -/
theorem OpenCl.primitives_eq (s : Switches) : primitives s = Cuda.primitives := by
  have hkeccak : keccakF1600 s = Cuda.keccakF1600 := by
    funext st
    rw [keccakF1600_eq, Cuda.keccakF1600_eq]
  have hblake3 : Memory.inPlace blake3Compress32At = Cuda.blake3Compress32 := by
    funext input
    refine Vector.toList_inj.mp ?_
    rw [Cuda.toList_blake3Compress32, toList_inPlace blake3Compress32At_eq input (Blake3.length_hash _)]
  rw [primitives, sha3_256_32bytesAt, hkeccak, hblake3]
  rfl

/-- Both kernels' hash functions are the general ones: Keccak-f[1600] on every state, SHA3-256 and BLAKE3 of the
    32 bytes at `input`, written at `output`, whichever the two addresses are. -/
theorem hashPrimitives_agree :
    (∀ st, Cuda.keccakF1600 st = f1600 st) ∧ (∀ s st, OpenCl.keccakF1600 s st = f1600 st) ∧
      (∀ mem input output, Cuda.sha3_256_32bytesAt mem input output =
        mem.write output (sha3_256 (mem.read input 32))) ∧
      (∀ s mem input output, OpenCl.sha3_256_32bytesAt s mem input output =
        mem.write output (sha3_256 (mem.read input 32))) ∧
      (∀ mem input output, Cuda.blake3Compress32At mem input output =
        mem.write output (Blake3.hash (mem.read input 32))) ∧
      (∀ mem input output, OpenCl.blake3Compress32At mem input output =
        mem.write output (Blake3.hash (mem.read input 32))) ∧
      ∀ input : Bytes 32, (Cuda.sha3_256_32bytes input).toList = sha3_256 input.toList ∧
        (Cuda.blake3Compress32 input).toList = Blake3.hash input.toList :=
  ⟨Cuda.keccakF1600_eq, OpenCl.keccakF1600_eq, Memory.sha3_256_32bytes_eq Cuda.keccakF1600_eq,
    fun s => Memory.sha3_256_32bytes_eq (OpenCl.keccakF1600_eq s), Cuda.blake3Compress32At_eq,
    OpenCl.blake3Compress32At_eq, fun input => ⟨Cuda.toList_sha3_256_32bytes input, Cuda.toList_blake3Compress32 input⟩⟩

end CryptixMiner
