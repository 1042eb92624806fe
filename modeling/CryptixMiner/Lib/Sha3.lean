import CryptixMiner.Lib.Keccak
import Mathlib.Data.List.GetD
import Mathlib.Tactic.IntervalCases

/-! The sponge over Keccak-f[1600], SHA3-256, SHAKE256 and cSHAKE256, on messages of whole bytes. -/

namespace Sha3
open Words Keccak

/-! ### The sponge -/

/-- Lane `i` of a block, its bytes least significant first; behind the block there are zeros. -/
def word (block : List UInt8) (i : Nat) : UInt64 :=
  UInt64.ofBitVec (ofLeBytes 64 (fun k => block.getD (8 * i + k) 0) 8)

def xorBlock (A : State) (block : List UInt8) : State := Vector.ofFn fun i => A[i.val]! ^^^ word block i.val

/-- The blocks of a message that is filled up to a multiple of the rate. -/
def blocks (rate : Nat) (message : List UInt8) : List (List UInt8) :=
  (List.range (message.length / rate)).map fun i => (message.drop (rate * i)).take rate

def absorb (rate : Nat) (A : State) (message : List UInt8) : State :=
  (blocks rate message).foldl (fun A block => f1600 (xorBlock A block)) A

/-- The bits that tell the functions apart, and `pad10*1` behind them: `suffix` holds those bits and the first
    one of the padding, the last one is the top bit of the block. -/
def pad (rate : Nat) (suffix : UInt8) (message : List UInt8) : List UInt8 :=
  let q := rate - message.length % rate
  if q = 1 then message ++ [suffix ||| 0x80] else message ++ suffix :: (List.replicate (q - 2) 0 ++ [0x80])

def stateBytes (A : State) : List UInt8 := A.toList.flatMap fun a => leBytes 8 a.toBitVec

/-- The output of `n` rounds of squeezing. -/
def squeeze (rate : Nat) : Nat → State → List UInt8
  | 0, _ => []
  | n + 1, A => (stateBytes A).take rate ++ squeeze rate n (f1600 A)

def sponge (rate : Nat) (suffix : UInt8) (message : List UInt8) (outLen : Nat) : List UInt8 :=
  (squeeze rate (outLen / rate + 1) (absorb rate (Vector.replicate 25 0) (pad rate suffix message))).take outLen

/-! ### The functions -/

def sha3_256 (message : List UInt8) : List UInt8 := sponge 136 0x06 message 32

def shake256 (message : List UInt8) (outLen : Nat) : List UInt8 := sponge 136 0x1f message outLen

/-- A number behind the count of its bytes, most significant byte first. -/
def leftEncode (x : Nat) : List UInt8 :=
  let n := x.log2 / 8 + 1
  UInt8.ofNat n :: (List.range n).reverse.map fun i => UInt8.ofNat (x >>> (8 * i))

/-- A string behind the count of its bits. -/
def encodeString (s : List UInt8) : List UInt8 := leftEncode (8 * s.length) ++ s

def bytepad (x : List UInt8) (w : Nat) : List UInt8 :=
  let z := leftEncode w ++ x
  z ++ List.replicate ((w - z.length % w) % w) 0

def cShake256 (message : List UInt8) (outLen : Nat) (name custom : List UInt8) : List UInt8 :=
  if name = [] ∧ custom = [] then shake256 message outLen
  else sponge 136 0x04 (bytepad (encodeString name ++ encodeString custom) 136 ++ message) outLen

/-! ### Messages of whole words -/

def wordBytes (ws : List UInt64) : List UInt8 := ws.flatMap fun w => leBytes 8 w.toBitVec

theorem length_wordBytes (ws : List UInt64) : (wordBytes ws).length = 8 * ws.length := by
  induction ws with
  | nil => rfl
  | cons w ws ih =>
    rw [wordBytes, List.flatMap_cons, List.length_append, length_leBytes, List.length_cons]
    rw [wordBytes] at ih
    omega

theorem wordBytes_singleton (w : UInt64) : wordBytes [w] = leBytes 8 w.toBitVec := by
  simp [wordBytes]

theorem wordBytes_append (ws vs : List UInt64) : wordBytes (ws ++ vs) = wordBytes ws ++ wordBytes vs :=
  List.flatMap_append

theorem getElem?_wordBytes (ws : List UInt64) (i : Nat) {j : Nat} (hj : j < 8) :
    (wordBytes ws)[8 * i + j]? = (ws[i]?).map fun w => leByte w.toBitVec j := by
  rw [wordBytes, Loop.getElem?_flatMap_of_length (fun w => length_leBytes _) hj]
  cases ws[i]? with
  | none => rfl
  | some w => simp [leBytes, hj]

theorem word_wordBytes (ws : List UInt64) (i : Nat) : word (wordBytes ws) i = ws.getD i 0 := by
  have hbyte : ∀ k < 8, (wordBytes ws).getD (8 * i + k) 0 = leByte (ws.getD i 0).toBitVec k := fun k hk => by
    rw [List.getD_eq_getElem?_getD, getElem?_wordBytes ws i hk, List.getD_eq_getElem?_getD]
    cases ws[i]? with
    | none => simp [leByte]
    | some w => rfl
  rw [word, ofLeBytes_congr hbyte, ofLeBytes_leByte (by decide)]

/-! ### A message that leaves at least two words of its last block -/

theorem absorb_nil (rate : Nat) (A : State) : absorb rate A [] = A := by
  rw [absorb, blocks, List.length_nil, Nat.zero_div]
  rfl

theorem absorb_append {rate : Nat} (hrate : 0 < rate) (A : State) {block : List UInt8} (hblock : block.length = rate)
    (message : List UInt8) : absorb rate A (block ++ message) = absorb rate (f1600 (xorBlock A block)) message := by
  have hcount : (block ++ message).length / rate = message.length / rate + 1 := by
    rw [List.length_append, hblock, Nat.add_comm, Nat.add_div_right _ hrate]
  have hrest : ∀ i, ((block ++ message).drop (rate * (i + 1))).take rate = (message.drop (rate * i)).take rate :=
    fun i => by
      have hlen : rate * (i + 1) = block.length + rate * i := by rw [hblock, Nat.mul_succ, Nat.add_comm]
      rw [hlen, List.drop_append, List.drop_of_length_le (Nat.le_add_right _ _), Nat.add_sub_cancel_left,
        List.nil_append]
  have hfirst : (block ++ message).take rate = block := by rw [← hblock, List.take_left]
  simp only [absorb, blocks, hcount, List.range_succ_eq_map, List.map_cons, List.map_map, List.foldl_cons,
    Nat.mul_zero, List.drop_zero, hfirst, Function.comp_def, hrest]

theorem pad_append {rate : Nat} (suffix : UInt8) {block : List UInt8} (hblock : block.length = rate)
    (message : List UInt8) : pad rate suffix (block ++ message) = block ++ pad rate suffix message := by
  have hmod : (block ++ message).length % rate = message.length % rate := by
    rw [List.length_append, hblock, Nat.add_mod_left]
  by_cases hq : rate - message.length % rate = 1
  · simp only [pad, hmod, if_pos hq, List.append_assoc]
  · simp only [pad, hmod, if_neg hq, List.append_assoc]

theorem leBytes_toUInt64 (x : UInt8) : leBytes 8 x.toUInt64.toBitVec = x :: List.replicate 7 0 := by
  have hbyte : ∀ k, leByte x.toUInt64.toBitVec k = if k = 0 then x else 0 := fun k => by
    refine UInt8.eq_of_toBitVec_eq (BitVec.eq_of_getLsbD_eq fun i hi => ?_)
    rw [getLsbD_leByte, UInt8.toBitVec_toUInt64, BitVec.getLsbD_setWidth]
    by_cases hk : k = 0
    · have hlt : i < 64 := by omega
      simp [hk, hi, hlt]
    · have hbig : x.toBitVec.getLsbD (8 * k + i) = false := BitVec.getLsbD_of_ge _ _ (by omega)
      simp [hk, hbig]
  rw [leBytes, List.map_congr_left fun k _ => hbyte k]
  rfl

/-- The words that the padding adds to `n` words. -/
def padWords (n : Nat) (suffix : UInt8) : List UInt64 :=
  suffix.toUInt64 :: (List.replicate (15 - n) 0 ++ [0x8000000000000000])

theorem wordBytes_replicate (n : Nat) : wordBytes (List.replicate n 0) = List.replicate (8 * n) 0 := by
  induction n with
  | zero => rfl
  | succ n ih =>
    have hzero : leBytes 8 (0 : UInt64).toBitVec = List.replicate 8 0 := leBytes_toUInt64 0
    rw [wordBytes] at ih
    rw [List.replicate_succ, wordBytes, List.flatMap_cons, ih, hzero, List.replicate_append_replicate, Nat.mul_succ,
      Nat.add_comm]

theorem pad_wordBytes (ws : List UInt64) (h : ws.length < 16) (suffix : UInt8) :
    pad 136 suffix (wordBytes ws) = wordBytes (ws ++ padWords ws.length suffix) := by
  have hmod : 8 * ws.length % 136 = 8 * ws.length := Nat.mod_eq_of_lt (by omega)
  have hmany : ¬136 - 8 * ws.length = 1 := by omega
  have hzeros : 136 - 8 * ws.length - 2 = 7 + (8 * (15 - ws.length) + 7) := by omega
  have htop : wordBytes [0x8000000000000000] = List.replicate 7 0 ++ [0x80] := by decide
  have hsuffix : wordBytes (padWords ws.length suffix) =
      (suffix :: List.replicate 7 0) ++ wordBytes (List.replicate (15 - ws.length) 0 ++ [0x8000000000000000]) := by
    rw [padWords, ← leBytes_toUInt64]
    rfl
  rw [pad, length_wordBytes, hmod, if_neg hmany, hzeros, ← List.replicate_append_replicate,
    ← List.replicate_append_replicate, wordBytes_append, hsuffix, wordBytes_append, htop, wordBytes_replicate]
  simp only [List.append_assoc, List.cons_append]

/-- The state after the padded last block: its words are xored into the first 17 lanes. -/
theorem absorb_last (A : State) (ws : List UInt64) (h : ws.length < 16) (suffix : UInt8) :
    absorb 136 A (pad 136 suffix (wordBytes ws)) =
      f1600 (Vector.ofFn fun i => A[i.val]! ^^^ (ws ++ padWords ws.length suffix).getD i.val 0) := by
  have hlen : (wordBytes (ws ++ padWords ws.length suffix)).length = 136 := by
    rw [length_wordBytes, List.length_append, padWords, List.length_cons, List.length_append, List.length_replicate]
    simp only [List.length_cons, List.length_nil]
    omega
  have habsorb := absorb_append (by decide) A hlen []
  rw [List.append_nil] at habsorb
  rw [pad_wordBytes ws h, habsorb, absorb_nil]
  simp only [xorBlock, word_wordBytes]

theorem length_stateBytes (A : State) : (stateBytes A).length = 200 := by
  have h := length_wordBytes A.toList
  rwa [Vector.length_toList] at h

/-- The first bytes of the output are the first bytes of the state. -/
theorem take_sponge {rate n outLen : Nat} (suffix : UInt8) (message : List UInt8) (hrate : rate ≤ 200) (hn : n ≤ rate)
    (hout : n ≤ outLen) : (sponge rate suffix message outLen).take n =
      (stateBytes (absorb rate (Vector.replicate 25 0) (pad rate suffix message))).take n := by
  have hlen : n ≤ ((stateBytes (absorb rate (Vector.replicate 25 0) (pad rate suffix message))).take rate).length := by
    rw [List.length_take, length_stateBytes]
    omega
  rw [sponge, List.take_take, Nat.min_eq_left hout, squeeze, List.take_append_of_le_length hlen, List.take_take,
    Nat.min_eq_left hn]

theorem take_stateBytes (A : State) : (stateBytes A).take 32 = wordBytes [A[0]!, A[1]!, A[2]!, A[3]!] := by
  have htake : A.toList.take 4 = [A[0]!, A[1]!, A[2]!, A[3]!] := by
    refine List.ext_getElem (by simp) fun i _ hi => ?_
    simp only [List.length_cons, List.length_nil] at hi
    interval_cases i <;> simp
  have hbytes : stateBytes A = wordBytes [A[0]!, A[1]!, A[2]!, A[3]!] ++ wordBytes (A.toList.drop 4) := by
    rw [← htake, ← wordBytes_append, List.take_append_drop]
    rfl
  rw [hbytes, List.take_left' (by rw [length_wordBytes]; rfl)]

theorem length_sha3_256 (message : List UInt8) : (sha3_256 message).length = 32 := by
  have hout : (sponge 136 0x06 message 32).take 32 = _ := take_sponge 0x06 message (by decide) (by decide) (Nat.le_refl 32)
  have htake : (sponge 136 0x06 message 32).take 32 = sponge 136 0x06 message 32 := by
    rw [sponge, List.take_take, Nat.min_self]
  rw [sha3_256, ← htake, hout, List.length_take, length_stateBytes]
  rfl

/-- SHA3-256 of a message of whole words that leaves two words of its block. -/
theorem sha3_256_wordBytes (ws : List UInt64) (h : ws.length < 16) : sha3_256 (wordBytes ws) =
    (stateBytes (f1600 (Vector.ofFn fun i => (ws ++ padWords ws.length 0x06).getD i.val 0))).take 32 := by
  have hzero : ∀ i : Fin 25, (Vector.replicate 25 (0 : UInt64))[i.val]! ^^^ (ws ++ padWords ws.length 0x06).getD i.val 0 =
      (ws ++ padWords ws.length 0x06).getD i.val 0 := fun i => by
    rw [Loop.getElem!_eq _ i.isLt, Vector.getElem_replicate, UInt64.zero_xor]
  have hout : (sponge 136 0x06 (wordBytes ws) 32).take 32 = _ :=
    take_sponge 0x06 (wordBytes ws) (by decide) (by decide) (Nat.le_refl 32)
  rw [absorb_last _ ws h] at hout
  simp only [hzero] at hout
  rw [← hout, sponge, List.take_take, Nat.min_self]
  rfl

theorem wordBytes_map_word {bytes : List UInt8} {n : Nat} (hlen : bytes.length = 8 * n) :
    wordBytes ((List.range n).map (word bytes)) = bytes := by
  refine List.ext_getElem? fun k => ?_
  have hbyte := getElem?_wordBytes ((List.range n).map (word bytes)) (k / 8) (Nat.mod_lt k (by decide))
  rw [Nat.div_add_mod] at hbyte
  rw [hbyte]
  rcases Nat.lt_or_ge k bytes.length with hk | hk
  · have hlt : k / 8 < n := by omega
    have hmod : k % 8 < 8 := Nat.mod_lt k (by decide)
    have hsplit : 8 * (k / 8) + k % 8 = k := Nat.div_add_mod k 8
    have hle : leByte (word bytes (k / 8)).toBitVec (k % 8) = bytes.getD k 0 := by
      rw [word, leByte_ofLeBytes hmod (by decide), hsplit]
    simp [hlt, hle, hk]
  · have hge : n ≤ k / 8 := by omega
    simp [hge, hk]

end Sha3
