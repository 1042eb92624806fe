import CryptixMiner.Theorems.PreMatrix
import Mathlib.Logic.Function.Iterate
import Mathlib.Tactic.FinCases

/-! The matrix hash: both kernels return the bytes that the processor returns, on every matrix of nibbles. The
    stages are compared one by one: the bytes from the dot products, the octonion, the substitution table and
    the final mix. -/

namespace CryptixMiner
open Words Device

/-! ### The nibbles of an output byte -/

theorem uint32_xor_and (x y m : UInt32) : (x ^^^ y) &&& m = (x &&& m) ^^^ (y &&& m) := by
  refine UInt32.toBitVec_inj.mp (BitVec.eq_of_getLsbD_eq fun i _ => ?_)
  simp [Bool.and_xor_distrib_right]

namespace Sums

/-- A nibble is not changed by cutting it to four bits. -/
theorem nibbles_and (s : Sums) : s.aNibble &&& 0xF = s.aNibble ∧ s.bNibble &&& 0xF = s.bNibble ∧
    s.cNibble &&& 0xF = s.cNibble ∧ s.dNibble &&& 0xF = s.dNibble := by
  have hself (x : UInt32) : x &&& 0xF &&& 0xF = x &&& 0xF := by rw [UInt32.and_assoc, UInt32.and_self]
  simp only [aNibble, bNibble, cNibble, dNibble, nibbleAt, uint32_xor_and, hself, and_self]

end Sums

namespace Kernel

theorem nibbles_eq (s : Sums) :
    aNibble s = s.aNibble ∧ bNibble s = s.bNibble ∧ cNibble s = s.cNibble ∧ dNibble s = s.dNibble := by
  simp only [aNibble, bNibble, cNibble, dNibble, Sums.aNibble, Sums.bNibble, Sums.cNibble, Sums.dNibble, rotl32_eq,
    rotr32_eq, and_self]

theorem nibbleByte_eq (s : Sums) (h : UInt8) :
    ((((cNibble s &&& 0xF) <<< 4) ||| (dNibble s &&& 0xF)) ^^^ h.toUInt32).toUInt8 = s.nibbleByte h := by
  obtain ⟨-, -, hc, hd⟩ := nibbles_eq s
  obtain ⟨-, -, hc', hd'⟩ := s.nibbles_and
  rw [hc, hd, hc', hd', UInt32.toUInt8_xor, UInt8.toUInt8_toUInt32, Sums.nibbleByte]

theorem productByte_eq (s : Sums) (h : UInt8) :
    ((((aNibble s &&& 0xF) <<< 4) ||| (bNibble s &&& 0xF)) ^^^ h.toUInt32).toUInt8 = s.productByte h := by
  obtain ⟨ha, hb, -, -⟩ := nibbles_eq s
  obtain ⟨ha', hb', -, -⟩ := s.nibbles_and
  rw [ha, hb, ha', hb', UInt32.toUInt8_xor, UInt8.toUInt8_toUInt32, Sums.productByte]

end Kernel

/-! ### The nibbles of the hash -/

theorem shiftRight_four_lt (x : UInt8) : x >>> 4 < 16 := by
  refine UInt8.lt_iff_toNat_lt.mpr ?_
  have hlt := x.toNat_lt
  have hdiv : (x >>> 4).toNat = x.toNat / 16 := by simp [Nat.shiftRight_eq_div_pow]
  have h16 : (16 : UInt8).toNat = 16 := rfl
  omega

theorem and_fifteen_lt (x : UInt8) : x &&& 0x0F < 16 := by
  refine UInt8.lt_iff_toNat_lt.mpr ?_
  have hmod : (x &&& 0x0F).toNat = x.toNat % 16 := and_fifteen x.toNat
  have h16 : (16 : UInt8).toNat = 16 := rfl
  omega

namespace Matrix

/-- Entry `j` of the nibbles: the high nibble of byte `j / 2` when `j` is even, else its low nibble. -/
def nibble (hashBytes : Bytes 32) (j : Nat) : UInt8 :=
  if j % 2 = 0 then hashBytes[j / 2]! >>> 4 else hashBytes[j / 2]! &&& 0x0F

theorem getElem_nibbles (hashBytes : Bytes 32) {j : Nat} (hj : j < 64) :
    (nibbles hashBytes)[j] = nibble hashBytes j := by
  have hrun : j / 2 < 32 → (nibbles hashBytes)[j] = nibble hashBytes j := by
    refine Loop.forRange_inv (P := fun i (arr : Bytes 64) => j / 2 < i → arr[j] = nibble hashBytes j) (by decide)
      (fun h => absurd h (Nat.not_lt_zero _)) fun i arr _ _ ih hlt => ?_
    rw [Loop.getElem_set! hj, Loop.getElem_set! hj]
    by_cases hodd : 2 * i + 1 = j
    · have hdiv : j / 2 = i := by omega
      have hmod : ¬j % 2 = 0 := by omega
      rw [if_pos hodd, nibble, if_neg hmod, hdiv]
    · by_cases heven : 2 * i = j
      · have hdiv : j / 2 = i := by omega
        have hmod : j % 2 = 0 := by omega
        rw [if_neg hodd, if_pos heven, nibble, if_pos hmod, hdiv]
      · rw [if_neg hodd, if_neg heven]
        exact ih (by omega)
  exact hrun (by omega)

theorem nibbles_lt (hashBytes : Bytes 32) (j : Nat) : (nibbles hashBytes)[j]! < 16 := by
  rcases Nat.lt_or_ge j 64 with hj | hj
  · rw [Loop.getElem!_eq _ hj, getElem_nibbles hashBytes hj, nibble]
    by_cases hmod : j % 2 = 0
    · rw [if_pos hmod]
      exact shiftRight_four_lt _
    · rw [if_neg hmod]
      exact and_fifteen_lt _
  · rw [getElem!_neg (nibbles hashBytes) j (Nat.not_lt.mpr hj)]
    decide

theorem getElem_bytes (m : Matrix) {i j : Nat} (hi : i < 64) (hj : j < 64) : m.bytes[64 * i + j]! = (m.rows[i]!)[j]! := by
  have hlt : 64 * i + j < 64 * 64 := by omega
  have hdiv : (64 * i + j) / 64 = i := by omega
  have hmod : (64 * i + j) % 64 = j := by omega
  rw [Loop.getElem!_eq m.rows hi, Loop.getElem!_eq _ hj, Loop.getElem!_eq m.bytes hlt, bytes]
  refine (Vector.getElem_flatten hlt).trans ?_
  simp only [hdiv, hmod]

end Matrix

/-! ### The bytes from the dot products -/

namespace Kernel
variable {K : Kernel}

theorem nib4_eq (hashBytes : Bytes 32) {block : Nat} (hb : block < 16) : nib4 hashBytes block =
    #v[(Matrix.nibbles hashBytes)[4 * block]!, (Matrix.nibbles hashBytes)[4 * block + 1]!,
      (Matrix.nibbles hashBytes)[4 * block + 2]!, (Matrix.nibbles hashBytes)[4 * block + 3]!] := by
  have hshift : block <<< 1 = 2 * block := by rw [Nat.shiftLeft_eq, Nat.mul_comm]
  have hhigh {j k : Nat} (hk : k < 32) (hj : j = 2 * k) : (Matrix.nibbles hashBytes)[j]! = hashBytes[k]! >>> 4 := by
    have hlt : j < 64 := by omega
    have hmod : j % 2 = 0 := by omega
    have hdiv : j / 2 = k := by omega
    rw [Loop.getElem!_eq _ hlt, Matrix.getElem_nibbles hashBytes hlt, Matrix.nibble, if_pos hmod, hdiv]
  have hlow {j k : Nat} (hk : k < 32) (hj : j = 2 * k + 1) :
      (Matrix.nibbles hashBytes)[j]! = hashBytes[k]! &&& 0x0F := by
    have hlt : j < 64 := by omega
    have hmod : ¬j % 2 = 0 := by omega
    have hdiv : j / 2 = k := by omega
    rw [Loop.getElem!_eq _ hlt, Matrix.getElem_nibbles hashBytes hlt, Matrix.nibble, if_neg hmod, hdiv]
  have h0 := hhigh (j := 4 * block) (k := 2 * block) (by omega) (by omega)
  have h1 := hlow (j := 4 * block + 1) (k := 2 * block) (by omega) (by omega)
  have h2 := hhigh (j := 4 * block + 2) (k := 2 * block + 1) (by omega) (by omega)
  have h3 := hlow (j := 4 * block + 3) (k := 2 * block + 1) (by omega) (by omega)
  simp only [nib4, hshift, h0, h1, h2, h3]

theorem dot_eq (hK : KernelAgrees K) {m : Matrix} (hm : m.Nibbles) (hashBytes : Bytes 32) {i p : Nat} (hi : i < 64)
    (hp : p = 64 * i) :
    Loop.forRange 0 16 (fun block sum => K.dot4Acc sum (row4 m.bytes (p + block <<< 2)) (nib4 hashBytes block)) 0 =
      dotProduct m.rows[i]! (Matrix.nibbles hashBytes) := by
  refine Loop.forRange_congr (by decide) fun block sum _ hb => ?_
  have hrow : ∀ j < 64, (m.rows[i]!)[j]! < 16 := fun j hj => by
    rw [Loop.getElem!_eq _ hi, Loop.getElem!_eq _ hj]
    exact hm i hi j hj
  have hshift : p + block <<< 2 = 64 * i + 4 * block := by rw [Nat.shiftLeft_eq, hp]; omega
  have hrow4 : row4 m.bytes (p + block <<< 2) = #v[(m.rows[i]!)[4 * block]!, (m.rows[i]!)[4 * block + 1]!,
      (m.rows[i]!)[4 * block + 2]!, (m.rows[i]!)[4 * block + 3]!] := by
    rw [row4, hshift, Nat.add_assoc, Nat.add_assoc, Nat.add_assoc, m.getElem_bytes hi (by omega),
      m.getElem_bytes hi (by omega), m.getElem_bytes hi (by omega), m.getElem_bytes hi (by omega)]
  rw [hrow4, nib4_eq hashBytes hb, hK.dot4Acc, addColumns_eq, columns]
  · simp [UInt32.add_assoc]
  · intro k hk
    interval_cases k
    · exact hrow _ (by omega)
    · exact hrow _ (by omega)
    · exact hrow _ (by omega)
    · exact hrow _ (by omega)
  · intro k hk
    interval_cases k
    · exact Matrix.nibbles_lt hashBytes _
    · exact Matrix.nibbles_lt hashBytes _
    · exact Matrix.nibbles_lt hashBytes _
    · exact Matrix.nibbles_lt hashBytes _

theorem sums_eq (K : Kernel) (matrix : Bytes 4096) (hashBytes : Bytes 32) (r : RowState) :
    K.sums matrix hashBytes r =
      let dot (p : Nat) : UInt32 :=
        Loop.forRange 0 16 (fun block sum => K.dot4Acc sum (row4 matrix (p + block <<< 2)) (nib4 hashBytes block)) 0
      ⟨dot r.rowPtr0, dot r.rowPtr1, dot r.rowPtr2, dot r.rowPtr3⟩ :=
  forRange_sums
    (fun block sum => K.dot4Acc sum (row4 matrix (r.rowPtr0 + block <<< 2)) (nib4 hashBytes block))
    (fun block sum => K.dot4Acc sum (row4 matrix (r.rowPtr1 + block <<< 2)) (nib4 hashBytes block))
    (fun block sum => K.dot4Acc sum (row4 matrix (r.rowPtr2 + block <<< 2)) (nib4 hashBytes block))
    (fun block sum => K.dot4Acc sum (row4 matrix (r.rowPtr3 + block <<< 2)) (nib4 hashBytes block)) ⟨0, 0, 0, 0⟩ 16

/-- The row positions are running: before byte `i` they stand at rows `2 * i`, `2 * i + 1`, `i + 2`, `i + 3`. -/
structure RowsAt (i : Nat) (r : RowState) (q : Bytes 32 × Bytes 32) : Prop where
  rowPtr0 : r.rowPtr0 = 64 * (2 * i)
  rowPtr1 : r.rowPtr1 = 64 * (2 * i + 1)
  rowPtr2 : r.rowPtr2 = 64 * (i + 2)
  rowPtr3 : r.rowPtr3 = 64 * (i + 3)
  bytes : (r.nibbleProduct, r.product) = q

theorem rowsAt_rowBody (hK : KernelAgrees K) {m : Matrix} (hm : m.Nibbles) (hashBytes : Bytes 32) (useAvx2 : Bool)
    {i : Nat} (hi : i < 32) {r : RowState} {q : Bytes 32 × Bytes 32} (h : RowsAt i r q) :
    RowsAt (i + 1) (K.rowBody m.bytes hashBytes i r) (m.rowBody hashBytes useAvx2 i q) := by
  obtain ⟨h0, h1, h2, h3, rfl⟩ := h
  have hsums : K.sums m.bytes hashBytes r = dotProducts4Rows m.rows[2 * i]! m.rows[2 * i + 1]! m.rows[i + 2]!
      m.rows[i + 3]! (Matrix.nibbles hashBytes) useAvx2 := by
    rw [dotProducts4Rows_eq useAvx2 (Matrix.nibbles_lt hashBytes), sums_eq]
    simp only
    rw [dot_eq hK hm hashBytes (by omega) h0, dot_eq hK hm hashBytes (by omega) h1,
      dot_eq hK hm hashBytes (by omega) h2, dot_eq hK hm hashBytes (by omega) h3]
  refine ⟨?_, ?_, ?_, ?_, ?_⟩
  · show r.rowPtr0 + 128 = _
    omega
  · show r.rowPtr1 + 128 = _
    omega
  · show r.rowPtr2 + 64 = _
    omega
  · show r.rowPtr3 + 64 = _
    omega
  · simp only [rowBody, Matrix.rowBody, nibbleByte_eq, productByte_eq, hsums]

theorem products_eq (hK : KernelAgrees K) {m : Matrix} (hm : m.Nibbles) (hashBytes : Bytes 32) (useAvx2 : Bool) :
    ((K.products m.bytes hashBytes).nibbleProduct, (K.products m.bytes hashBytes).product) =
      m.products hashBytes useAvx2 :=
  (Loop.forRange_rel (R := RowsAt) (by decide) ⟨rfl, rfl, rfl, rfl, rfl⟩ fun _ _ _ _ hi h =>
    rowsAt_rowBody hK hm hashBytes useAvx2 hi h).bytes

end Kernel

/-! ### Octonions -/

theorem byteToInt64_toUInt64 (x : UInt8) : (byteToInt64 x).toUInt64 = x.toUInt64 := rfl

namespace Kernel

/-- The running product holds the coordinates of the octonion, the window the bytes it is multiplied by next. -/
structure OctAt (inputHash : Bytes 32) (i : Nat) (oct : Octonion) (s : OctState) : Prop where
  a : ∀ k (_ : k < 8), s.a[k] = oct[k].toUInt64
  b : i < 32 → ∀ k (_ : k < 8), s.b[k] = inputHash[(i + k) % 32]!

theorem mul_eq {inputHash : Bytes 32} {i : Nat} {oct : Octonion} {s : OctState} (h : OctAt inputHash i oct s)
    (hi : i < 32) (j k : Fin 8) : s.mul j k = (oct[j] * (rotation inputHash i)[k]).toUInt64 := by
  have hrot : (rotation inputHash i)[k] = byteToInt64 inputHash[(i + k.val) % 32]! := by
    fin_cases k <;> rfl
  rw [OctState.mul, mul64PartsByU32_eq, Loop.getElem!_eq s.a j.isLt, Loop.getElem!_eq s.b k.isLt, h.a j.val j.isLt,
    h.b hi k.val k.isLt, Int64.toUInt64_mul, hrot, byteToInt64_toUInt64]
  simp

theorem octAt_body {inputHash : Bytes 32} {i : Nat} {oct : Octonion} {s : OctState} (hlo : 8 ≤ i) (hi : i < 32)
    (h : OctAt inputHash i oct s) :
    OctAt inputHash (i + 1) (octonionMultiply oct (rotation inputHash i)) (s.body inputHash i) := by
  refine ⟨fun k hk => ?_, fun hi' k hk => ?_⟩
  · have hmul := mul_eq h hi
    show s.product[k] = _
    simp only [OctState.product, hmul]
    interval_cases k <;> rfl
  · have hlt : i < 31 := by omega
    have hb {j : Nat} (hj : j < 8) (hjk : i + j = i + 1 + k) : s.b[j] = inputHash[(i + 1 + k) % 32]! := by
      rw [h.b hi j hj, hjk]
    simp only [OctState.body, if_pos hlt, and_31]
    interval_cases k
    · exact hb (j := 1) (by decide) (by omega)
    · exact hb (j := 2) (by decide) (by omega)
    · exact hb (j := 3) (by decide) (by omega)
    · exact hb (j := 4) (by decide) (by omega)
    · exact hb (j := 5) (by decide) (by omega)
    · exact hb (j := 6) (by decide) (by omega)
    · exact hb (j := 7) (by decide) (by omega)
    · rfl

theorem octonionHash_eq (inputHash : Bytes 32) {k : Nat} (hk : k < 8) :
    (octonionHash inputHash)[k] = ((CryptixMiner.octonionHash inputHash)[k]).toUInt64 := by
  refine (Loop.forRange_rel (R := OctAt inputHash) (by decide) ?_ fun _ _ _ hlo hi h => octAt_body hlo hi h).a k hk
  refine ⟨fun k hk => ?_, fun _ k hk => ?_⟩
  · interval_cases k <;> rfl
  · interval_cases k <;> simp

end Kernel

theorem leByte_load64Le {n : Nat} (bytes : Bytes n) (offset : Nat) {k : Nat} (hk : k < 8) :
    leByte (load64Le bytes offset).toBitVec k = bytes[offset + k]! := leByte_ofLeBytes hk (by decide)

/-- Xoring a word into eight bytes at once is xoring its bytes one by one. -/
theorem store64Le_xor (bytes : Bytes 32) (word : UInt64) (offset : Nat) :
    store64Le (load64Le bytes offset ^^^ word) bytes offset =
      Loop.forRange 0 8 (fun j bytes => bytes.set! (offset + j) (bytes[offset + j]! ^^^ leByte word.toBitVec j)) bytes := by
  refine Vector.ext fun k hk => ?_
  rw [getElem_store64Le hk, Loop.getElem_forRange_set!_add (fun j x => x ^^^ leByte word.toBitVec j) bytes offset 8 hk]
  by_cases hin : offset ≤ k ∧ k < offset + 8
  · have hsub : offset + (k - offset) = k := by omega
    have hlt : k - offset < 8 := by omega
    rw [if_pos hin, if_pos hin, UInt64.toBitVec_xor, leByte_xor, leByte_load64Le _ _ hlt, hsub, Loop.getElem!_eq _ hk]
  · rw [if_neg hin, if_neg hin]

namespace Kernel
variable {K : Kernel}

theorem mixOctonion_eq (product : Bytes 32) : mixOctonion product = Matrix.mixOctonion product := by
  rw [mixOctonion, Matrix.mixOctonion]
  refine Loop.forRange_congr (by decide) fun i bytes _ hi => ?_
  have hi8 : i < 8 := by omega
  have hword : (octonionHash product)[i]! = ((CryptixMiner.octonionHash product)[i]!).toUInt64 := by
    rw [Loop.getElem!_eq _ hi8, Loop.getElem!_eq _ hi8, octonionHash_eq product hi8]
  simp only [hword]
  exact store64Le_xor bytes _ (i * 8)

theorem buffers_eq (hK : KernelAgrees K) {m : Matrix} (hm : m.Nibbles) (hashBytes : Bytes 32) (useAvx2 : Bool) :
    K.buffers m.bytes hashBytes = m.buffers hashBytes useAvx2 := by
  simp only [buffers, Matrix.buffers, ← products_eq hK hm hashBytes useAvx2, mixOctonion_eq]

end Kernel

/-! ### The substitution table -/

namespace Buffers

theorem getElem_mixed (P : Primitives) (b : Buffers) {j : Nat} (hj : j < 32) : (b.mixed P)[j] =
    (Loop.forRange 0 b.blakeIterations (fun _ arr => P.blake3 arr) b.product)[j] ^^^
      (b.sbox[b.mixIndex j]! ^^^ AFTER_COMP_LUT[b.product[j]!.toNat]!) := by
  have hafter : (computeAfterCompProduct b.product)[j]! = AFTER_COMP_LUT[b.product[j]!.toNat]! := by
    rw [Loop.getElem!_eq _ hj, computeAfterCompProduct,
      Loop.getElem_forRange_set! (fun i _ => AFTER_COMP_LUT[b.product[i]!.toNat]!) _ 32 hj, if_pos hj]
  rw [mixed, Loop.getElem_forRange_set! (fun i x => x ^^^ (computeAfterCompProduct b.product)[i]!) _ 32 hj, if_pos hj,
    Loop.getElem_forRange_set! (fun i x => x ^^^ b.sbox[b.mixIndex i]!) _ 32 hj, if_pos hj, hafter, UInt8.xor_assoc]

theorem getElem_sbox (b : Buffers) {j : Nat} (hj : j < 256) :
    b.sbox[j] = (b.sboxUpdate j)^[b.sboxIterations] (b.sboxEntry j) := by
  rw [sbox]
  refine Loop.forRange_inv (P := fun n (t : Bytes 256) => t[j] = (b.sboxUpdate j)^[n] (b.sboxEntry j))
    (Nat.zero_le _) ?_ fun n t _ _ ih => ?_
  · rw [Loop.getElem_forRange_set! (fun i _ => b.sboxEntry i) _ 256 hj, if_pos hj]
    rfl
  · rw [Loop.getElem_forRange_set! b.sboxUpdate t 256 hj, if_pos hj, ih, Function.iterate_succ_apply']

theorem sboxIterations_eq (b : Buffers) : b.sboxIterations = 1 ∨ b.sboxIterations = 2 := by
  have hlt : (b.product[(b.productBeforeOct[2]! % 8 + 1).toNat]! % 2).toNat < 2 := by
    rw [UInt8.toNat_mod]
    exact Nat.mod_lt _ (by decide)
  rw [sboxIterations, UInt8.add_comm, toNat_mod_add_one _ (by decide) (by decide)]
  omega

theorem blakeIterations_eq (b : Buffers) : b.blakeIterations = 1 ∨ b.blakeIterations = 2 ∨ b.blakeIterations = 3 := by
  have hlt : (b.product[(b.productBeforeOct[5]! % 8 + 1).toNat]! % 3).toNat < 3 := by
    rw [UInt8.toNat_mod]
    exact Nat.mod_lt _ (by decide)
  rw [blakeIterations, UInt8.add_comm, toNat_mod_add_one _ (by decide) (by decide)]
  omega

end Buffers

namespace Kernel
variable {K : Kernel}

theorem pickArrayByte_eq (selector : UInt8) (idx : Nat) (b : Buffers) :
    pickArrayByte selector idx b = (b.sourceArray selector)[idx]! := by
  have hiff (n : Nat) (hn : n < 256) : selector.toNat = n ↔ selector = UInt8.ofNat n := by
    rw [← UInt8.toNat_inj, UInt8.toNat_ofNat_of_lt' hn]
  unfold pickArrayByte Buffers.sourceArray SEL_PRODUCT SEL_HASH SEL_NIBBLE
  by_cases h0 : selector = 0
  · subst h0
    rfl
  · by_cases h1 : selector = 1
    · subst h1
      rfl
    · by_cases h2 : selector = 2
      · subst h2
        rfl
      · rw [if_neg h0, if_neg h1, if_neg h2]
        split
        · exact absurd ((hiff 0 (by decide)).mp ‹_›) h0
        · exact absurd ((hiff 1 (by decide)).mp ‹_›) h1
        · exact absurd ((hiff 2 (by decide)).mp ‹_›) h2
        · rfl

theorem computeSboxEntry_eq (hK : KernelAgrees K) (b : Buffers) {j n : Nat} (hj : j < 256) (hn : n = 1 ∨ n = 2) :
    K.computeSboxEntry j b n = (b.sboxUpdate j)^[n] (b.sboxEntry j) := by
  have hseg : j >>> 4 < 16 := by
    rw [Nat.shiftRight_eq_div_pow]
    omega
  have hentry (x : UInt8) (m : UInt8) (a : UInt8) (lane : Nat) :
      (x.toUInt32 * m.toUInt32 + (UInt32.ofNat lane * a.toUInt32).toUInt8.toUInt32).toUInt8 =
        x * m + UInt8.ofNat lane * a := by
    simp only [UInt32.toUInt8_add, UInt32.toUInt8_mul, UInt8.toUInt8_toUInt32, UInt32.toUInt8_ofNat']
  have hshl : j <<< 2 = j + j * 3 := by rw [Nat.shiftLeft_eq]; omega
  have hsix : j * 6 = j + j * 5 := by omega
  have hbase (x : UInt8) : UInt8.ofNat (j + x.toNat) = UInt8.ofNat j + x := by simp
  simp only [computeSboxEntry, pickArrayByte_eq, hentry, rotl8_eq, rotr8_eq, hK.rotateLeftBase b hseg,
    hK.rotateRightBase b hseg, hK.sourceSelectors, hK.valueSelectors, hK.valueMultipliers, hK.valueAdders, hshl, hsix,
    and_seven j, hbase, ← Nat.add_assoc]
  rcases hn with rfl | rfl
  · rfl
  · rfl

/-! ### The final mix -/

theorem pickRefValue_eq (i idx : Nat) (b : Buffers) : pickRefValue (i &&& 3) idx b = (b.refArray i)[idx]! := by
  unfold pickRefValue Buffers.refArray
  generalize i &&& 3 = refType
  match refType with
  | 0 => rfl
  | 1 => rfl
  | 2 => rfl
  | _ + 3 => rfl

/-- The running indices are the multiples of their steps, reduced. -/
structure IndicesAt (i : Nat) (m : MixState) : Prop where
  refIdx : m.refIdx = (i * 13) &&& 31
  productIdx : m.productIdx = (i * 31) &&& 31
  hashIdx : m.hashIdx = (i * 19) &&& 31
  mixTerm : m.mixTerm = i * 41 % 256

theorem indicesAt_mixBody (K : Kernel) (b : Buffers) (n : Nat) {i : Nat} {m : MixState} (h : IndicesAt i m) :
    IndicesAt (i + 1) (K.mixBody b n i m) := by
  obtain ⟨href, hproduct, hhash, hmix⟩ := h
  refine ⟨?_, ?_, ?_, ?_⟩
  · simp only [mixBody, href, and_31]
    omega
  · simp only [mixBody, hproduct, and_31]
    omega
  · simp only [mixBody, hhash, and_31]
    omega
  · simp only [mixBody, hmix, and_255]
    omega

theorem indicesAt_run (K : Kernel) (b : Buffers) (n : Nat) (output : Bytes 32) (i : Nat) :
    IndicesAt i (Loop.forRange 0 i (K.mixBody b n) ⟨output, 0, 0, 0, 0⟩) :=
  Loop.forRange_inv (Nat.zero_le i) ⟨rfl, rfl, rfl, rfl⟩ fun _ _ _ _ h => indicesAt_mixBody K b n h

/-- What byte `i` of the output is xored with is what the processor xors it with. -/
theorem mixBody_output (hK : KernelAgrees K) (b : Buffers) {n : Nat} (hn : n = 1 ∨ n = 2) (hiter : b.sboxIterations = n)
    {i : Nat} {m : MixState} (h : IndicesAt i m) : (K.mixBody b n i m).output =
      m.output.set! i (m.output[i]! ^^^ (b.sbox[b.mixIndex i]! ^^^ CryptixMiner.AFTER_COMP_LUT[b.product[i]!.toNat]!)) := by
  have hindex : ((pickRefValue (i &&& 3) m.refIdx b).toNat + b.product[m.productIdx]!.toNat +
      b.hashBytes[m.hashIdx]!.toNat + m.mixTerm) &&& 255 = b.mixIndex i := by
    rw [pickRefValue_eq, h.refIdx, h.productIdx, h.hashIdx, h.mixTerm, Buffers.mixIndex, and_255, and_255]
    omega
  have hlt : b.mixIndex i < 256 := by
    rw [Buffers.mixIndex, and_255]
    exact Nat.mod_lt _ (by decide)
  have hentry : K.computeSboxEntry (b.mixIndex i) b n = b.sbox[b.mixIndex i]! := by
    rw [computeSboxEntry_eq hK b hlt hn, Loop.getElem!_eq _ hlt, b.getElem_sbox hlt, hiter]
  simp only [mixBody, hindex, hentry, hK.afterCompLut]

theorem mixOutput_eq (hK : KernelAgrees K) (b : Buffers) (start : Bytes 32) {n : Nat} (hn : n = 1 ∨ n = 2)
    (hiter : b.sboxIterations = n) : K.mixOutput b n start = Loop.forRange 0 32 (fun i output =>
      output.set! i (output[i]! ^^^ (b.sbox[b.mixIndex i]! ^^^ CryptixMiner.AFTER_COMP_LUT[b.product[i]!.toNat]!))) start :=
  (Loop.forRange_rel (R := fun i m output => IndicesAt i m ∧ m.output = output) (by decide)
    ⟨⟨rfl, rfl, rfl, rfl⟩, rfl⟩ fun i m output _ _ ⟨h, hout⟩ =>
      ⟨indicesAt_mixBody K b n h, by rw [mixBody_output hK b hn hiter h, hout]⟩).2

theorem mixed_eq (hK : KernelAgrees K) (P : Primitives) (b : Buffers) : K.mixed P b = b.mixed P := by
  have hseven (x : UInt8) : (x &&& 7).toNat + 1 = (x % 8 + 1).toNat := by
    rw [uint8_and_seven, toNat_mod_add_one x (by decide) (by decide)]
  have hone (x d : UInt8) (hpos : 0 < d.toNat) (hd : d.toNat < 128) : 1 + (x % d).toNat = (1 + x % d).toNat := by
    rw [UInt8.add_comm, toNat_mod_add_one x hpos hd, Nat.add_comm]
  simp only [mixed, hseven]
  -- One or two passes over the table.
  have hsbox : 1 + (b.product[(b.productBeforeOct[2]! % 8 + 1).toNat]! &&& 1).toNat = b.sboxIterations := by
    rw [uint8_and_one, hone _ _ (by decide) (by decide)]
    rfl
  -- One to three rounds of BLAKE3.
  have hblake : 1 + (b.product[(b.productBeforeOct[5]! % 8 + 1).toNat]! % 3).toNat = b.blakeIterations := by
    rw [hone _ _ (by decide) (by decide)]
    rfl
  have hrounds : (if b.blakeIterations = 1 then P.blake3 b.product
      else if b.blakeIterations = 2 then P.blake3 (P.blake3 b.product)
      else P.blake3 (P.blake3 (P.blake3 b.product))) =
      Loop.forRange 0 b.blakeIterations (fun _ arr => P.blake3 arr) b.product := by
    rcases b.blakeIterations_eq with h | h | h <;> rw [h] <;> rfl
  rw [hsbox, hblake, hrounds]
  rw [mixOutput_eq hK b _ b.sboxIterations_eq rfl]
  refine Vector.ext fun j hj => ?_
  rw [b.getElem_mixed P hj, Loop.getElem_forRange_set!
    (fun i x => x ^^^ (b.sbox[b.mixIndex i]! ^^^ CryptixMiner.AFTER_COMP_LUT[b.product[i]!.toNat]!)) _ 32 hj, if_pos hj]

/-! ### The hash -/

theorem set!_four (st : KeccakState) (input : Bytes 32) :
    (let st0 := st.set! 0 (st[0]! ^^^ load64Le input 0)
     let st1 := st0.set! 1 (st0[1]! ^^^ load64Le input 8)
     let st2 := st1.set! 2 (st1[2]! ^^^ load64Le input 16)
     st2.set! 3 (st2[3]! ^^^ load64Le input 24)) = xorHash st (Uint256.fromLeBytes input) := by
  refine Vector.ext fun j hj => ?_
  rw [getElem_xorHash _ _ hj]
  by_cases h4 : j < 4
  · rw [dif_pos h4]
    interval_cases j <;> simp [Uint256.fromLeBytes]
  · have hne : 0 ≠ j ∧ 1 ≠ j ∧ 2 ≠ j ∧ 3 ≠ j := by omega
    rw [dif_neg h4, Loop.getElem_set! hj, if_neg hne.2.2.2, Loop.getElem_set! hj, if_neg hne.2.2.1,
      Loop.getElem_set! hj, if_neg hne.2.1, Loop.getElem_set! hj, if_neg hne.1]

theorem cryptixHashV2Hash_eq (hK : KernelAgrees K) (P : Primitives) (input : Bytes 32) :
    K.cryptixHashV2Hash P input = (HeavyHasher.hash P (Uint256.fromLeBytes input)).toLeBytes := by
  have habsorb := set!_four K.HEAVY_HASH_INITIAL_STATE input
  simp only at habsorb
  simp only [cryptixHashV2Hash, Uint256.store64Le_four, habsorb]
  simp only [hK.heavyHashInitialState]
  rfl

theorem cryptixHashMatrix_eq (hK : KernelAgrees K) {m : Matrix} (hm : m.Nibbles) (P : Primitives)
    (hashBytes : Bytes 32) (useAvx2 : Bool) : K.cryptixHashMatrix P m.bytes hashBytes =
      (m.heavyHash P useAvx2 (Uint256.fromLeBytes hashBytes)).toLeBytes := by
  rw [cryptixHashMatrix, cryptixHashV2Hash_eq hK, mixed_eq hK, buffers_eq hK hm hashBytes useAvx2, Matrix.heavyHash,
    Uint256.toLeBytes_fromLeBytes]

/-- A kernel that is given the matrix and the header bytes of a state finds the proof of work that
    `calculate_pow` finds. -/
theorem calculatePow_eq (hK : KernelAgrees K) {Block : Type} {B : Builder Block} {id : Nat}
    {blockSeed : BlockSeed Block} {s : State Block} (h : State.new B id blockSeed = .ok s) (hm : s.matrix.Nibbles)
    (P : Primitives) (useAvx2 : Bool) (nonce : UInt64) :
    K.calculatePowWithHeaderAndMatrix P s.matrix.bytes s.powHashHeader nonce =
      (s.calculatePow P useAvx2 nonce).toLeBytes := by
  rw [calculatePowWithHeaderAndMatrix, preMatrix_eq hK h, cryptixHashMatrix_eq hK hm P _ useAvx2, State.calculatePow]

end Kernel

/-- The processor and both kernels hash alike, on every architecture and in every build. So do their parts:
    a table entry computed on demand is the entry of the whole table, the split products are the octonion
    modulo `2 ^ 64`, and the running indices are the closed forms. -/
theorem heavyHash_agrees (P : Primitives) (m : Matrix) (hm : m.Nibbles) (hashBytes : Bytes 32) (useAvx2 : Bool) :
    (∀ arch, Cuda.cryptixHashMatrix P arch m.bytes hashBytes =
      (m.heavyHash P useAvx2 (Uint256.fromLeBytes hashBytes)).toLeBytes) ∧
    (∀ build, OpenCl.cryptixHashMatrix P build m.bytes hashBytes =
      (m.heavyHash P useAvx2 (Uint256.fromLeBytes hashBytes)).toLeBytes) ∧
    (∀ (gpu : Gpu) (b : Buffers) (j : Nat) (_ : j < 256),
      gpu.kernel.computeSboxEntry j b b.sboxIterations = b.sbox[j]) ∧
    (∀ (input : Bytes 32) (k : Nat) (_ : k < 8), (Kernel.octonionHash input)[k] = ((octonionHash input)[k]).toUInt64) ∧
    (∀ (gpu : Gpu) (b : Buffers) (n : Nat) (output : Bytes 32) (i : Nat),
      Kernel.IndicesAt i (Loop.forRange 0 i (gpu.kernel.mixBody b n) ⟨output, 0, 0, 0, 0⟩)) := by
  refine ⟨fun arch => ?_, fun build => ?_, fun gpu b j hj => ?_, fun input k hk => ?_, fun gpu b n output i => ?_⟩
  · exact Kernel.cryptixHashMatrix_eq (Cuda.kernel_agrees arch) hm P hashBytes useAvx2
  · exact Kernel.cryptixHashMatrix_eq (OpenCl.kernel_agrees build) hm P hashBytes useAvx2
  · rw [Kernel.computeSboxEntry_eq gpu.kernel_agrees b hj b.sboxIterations_eq, b.getElem_sbox hj]
  · exact Kernel.octonionHash_eq input hk
  · exact Kernel.indicesAt_run gpu.kernel b n output i

theorem heavyHash_agrees_matrix :
    let m : Matrix := ⟨Vector.ofFn fun i => Vector.ofFn fun j => UInt8.ofNat ((7 * i.val + j.val) % 16)⟩
    let hashBytes : Bytes 32 := Vector.replicate 32 0xA5
    Cuda.cryptixHashMatrix Cuda.primitives 700 m.bytes hashBytes =
      (m.heavyHash Cuda.primitives true (Uint256.fromLeBytes hashBytes)).toLeBytes := by
  intro m hashBytes
  have hm : m.Nibbles := fun i hi j hj => by
    have hlt : (7 * i + j) % 16 < 16 := Nat.mod_lt _ (by decide)
    simp only [m, Vector.getElem_ofFn]
    rw [UInt8.lt_iff_toNat_lt, UInt8.toNat_ofNat_of_lt' (Nat.lt_trans hlt (by decide))]
    exact hlt
  exact (heavyHash_agrees Cuda.primitives m hm hashBytes true).1 700

end CryptixMiner
