import Mathlib.Data.UInt

/-! Machine words as rows of bytes, least significant byte first, and rotations written as a pair of
    shifts. -/

namespace Words

/-! ### Bytes of a word -/

/-- Byte `k` of a word, counted from the least significant one. -/
def leByte {w : Nat} (x : BitVec w) (k : Nat) : UInt8 := UInt8.ofBitVec ((x >>> (8 * k)).setWidth 8)

/-- The word whose byte `k` is `b k` for `k < n`: each byte shifted to its place and or-ed in. -/
def ofLeBytes (w : Nat) (b : Nat → UInt8) : Nat → BitVec w
  | 0 => 0
  | n + 1 => ofLeBytes w b n ||| ((b n).toBitVec.setWidth w <<< (8 * n))

def leBytes {w : Nat} (n : Nat) (x : BitVec w) : List UInt8 := (List.range n).map (leByte x)

section Bytes
variable {w n : Nat} {b : Nat → UInt8}

theorem getLsbD_leByte (x : BitVec w) (k i : Nat) :
    (leByte x k).toBitVec.getLsbD i = (decide (i < 8) && x.getLsbD (8 * k + i)) := by
  simp [leByte]

theorem leByte_xor (x y : BitVec w) (k : Nat) : leByte (x ^^^ y) k = leByte x k ^^^ leByte y k := by
  refine UInt8.eq_of_toBitVec_eq (BitVec.eq_of_getLsbD_eq fun i _ => ?_)
  rw [UInt8.toBitVec_xor, BitVec.getLsbD_xor, getLsbD_leByte, getLsbD_leByte, getLsbD_leByte, BitVec.getLsbD_xor]
  exact Bool.and_xor_distrib_left _ _ _

theorem getLsbD_ofLeBytes (i : Nat) : (ofLeBytes w b n).getLsbD i =
    (decide (i < w) && (decide (i < 8 * n) && (b (i / 8)).toBitVec.getLsbD (i % 8))) := by
  induction n with
  | zero => simp [ofLeBytes]
  | succ n ih =>
    rw [ofLeBytes, BitVec.getLsbD_or, ih, BitVec.getLsbD_shiftLeft, BitVec.getLsbD_setWidth]
    rcases Nat.lt_or_ge i (8 * n) with hi | hi
    · -- A lower byte: the new one lies above bit `i`.
      have hlt : i < 8 * (n + 1) := by omega
      simp [hi, hlt]
    · by_cases hw : i < w
      · by_cases hlt : i < 8 * (n + 1)
        · have hdiv : i / 8 = n := by omega
          have hmod : i % 8 = i - 8 * n := by omega
          have hsub : i - 8 * n < w := by omega
          simp [Nat.not_lt.mpr hi, hw, hlt, hdiv, hmod, hsub]
        · have hbig : (b n).toBitVec.getLsbD (i - 8 * n) = false := BitVec.getLsbD_of_ge _ _ (by omega)
          simp [Nat.not_lt.mpr hi, hlt, hbig]
      · simp [hw]

theorem leByte_ofLeBytes {k : Nat} (hk : k < n) (hw : 8 * n ≤ w) : leByte (ofLeBytes w b n) k = b k := by
  refine UInt8.eq_of_toBitVec_eq (BitVec.eq_of_getLsbD_eq fun i hi => ?_)
  have hdiv : (8 * k + i) / 8 = k := by omega
  have hmod : (8 * k + i) % 8 = i := by omega
  have hlt : 8 * k + i < 8 * n := by omega
  have hlw : 8 * k + i < w := by omega
  rw [getLsbD_leByte, getLsbD_ofLeBytes, hdiv, hmod]
  simp [hi, hlt, hlw]

theorem ofLeBytes_leByte {x : BitVec w} (hw : w ≤ 8 * n) : ofLeBytes w (leByte x) n = x := by
  refine BitVec.eq_of_getLsbD_eq fun i hi => ?_
  have hlt : i < 8 * n := by omega
  have hmod : i % 8 < 8 := Nat.mod_lt _ (by decide)
  rw [getLsbD_ofLeBytes, getLsbD_leByte, Nat.div_add_mod]
  simp [hi, hlt, hmod]

theorem ofLeBytes_congr {b' : Nat → UInt8} (h : ∀ k < n, b k = b' k) : ofLeBytes w b n = ofLeBytes w b' n := by
  induction n with
  | zero => rfl
  | succ n ih => rw [ofLeBytes, ofLeBytes, ih fun k hk => h k (Nat.lt_succ_of_lt hk), h n (Nat.lt_succ_self n)]

@[simp] theorem length_leBytes (x : BitVec w) : (leBytes n x).length = n := by simp [leBytes]

end Bytes

/-! ### Rotations -/

section Rotations
variable {w : Nat}

/-- A rotation as two shifts. The second shift is taken modulo the width, so that a rotation by zero
    does not shift by the whole width. -/
theorem rotateLeft_eq_shifts (x : BitVec w) (hw : 0 < w) (s : Nat) :
    x <<< (s % w) ||| x >>> ((w - s % w) % w) = x.rotateLeft s := by
  rw [BitVec.rotateLeft_def]
  rcases Nat.eq_zero_or_pos (s % w) with h0 | hpos
  · rw [h0, Nat.sub_zero, Nat.mod_self, BitVec.ushiftRight_eq_zero (Nat.le_refl w)]
    simp
  · rw [Nat.mod_eq_of_lt (Nat.sub_lt hw hpos)]

theorem rotateRight_eq_shifts (x : BitVec w) (hw : 0 < w) (s : Nat) :
    x >>> (s % w) ||| x <<< ((w - s % w) % w) = x.rotateRight s := by
  rw [BitVec.rotateRight_def]
  rcases Nat.eq_zero_or_pos (s % w) with h0 | hpos
  · rw [h0, Nat.sub_zero, Nat.mod_self]
    simp
  · rw [Nat.mod_eq_of_lt (Nat.sub_lt hw hpos)]

end Rotations

/-! ### Two nibbles in a byte -/

theorem toNat_nibbles {x y : UInt8} (hx : x.toNat < 16) (hy : y.toNat < 16) :
    ((x <<< 4) ||| y).toNat = 16 * x.toNat + y.toNat := by
  have hshift : (x <<< 4).toNat = 2 ^ 4 * x.toNat := by
    rw [UInt8.toNat_shiftLeft]
    simp only [UInt8.reduceToNat, Nat.reduceMod, Nat.shiftLeft_eq]
    omega
  rw [UInt8.toNat_or, hshift, ← Nat.two_pow_add_eq_or_of_lt hy]

theorem nibbles_inj {x y x' y' : UInt8} (hx : x.toNat < 16) (hy : y.toNat < 16) (hx' : x'.toNat < 16)
    (hy' : y'.toNat < 16) (h : (x <<< 4) ||| y = (x' <<< 4) ||| y') : x = x' ∧ y = y' := by
  have hnat := congrArg UInt8.toNat h
  rw [toNat_nibbles hx hy, toNat_nibbles hx' hy'] at hnat
  rw [← UInt8.toNat_inj, ← UInt8.toNat_inj]
  omega

/-! ### A word cut in two -/

section Halves
variable {x v : UInt64} {s : Nat}

theorem toNat_shiftAmount (hs : s < 64) : (UInt64.ofNat s).toNat % 64 = s := by
  rw [UInt64.toNat_ofNat', Nat.mod_eq_of_lt (show s < 2 ^ 64 by omega), Nat.mod_eq_of_lt hs]

theorem toNat_lowMask (hs : s < 64) : ((1 : UInt64) <<< UInt64.ofNat s - 1).toNat = 2 ^ s - 1 := by
  have hpow : 2 ^ s < 2 ^ 64 := Nat.pow_lt_pow_right (by decide) hs
  have hpos : 0 < 2 ^ s := Nat.two_pow_pos s
  have hshift : ((1 : UInt64) <<< UInt64.ofNat s).toNat = 2 ^ s := by
    rw [UInt64.toNat_shiftLeft, toNat_shiftAmount hs, Nat.shiftLeft_eq]
    simp only [UInt64.reduceToNat, Nat.one_mul]
    exact Nat.mod_eq_of_lt hpow
  rw [UInt64.toNat_sub_of_le _ _ (by rw [UInt64.le_iff_toNat_le, hshift]; exact hpos), hshift]
  rfl

theorem toNat_shiftLeft_of_lt (hs : s < 64) (hv : v.toNat < 2 ^ (64 - s)) :
    (v <<< UInt64.ofNat s).toNat = 2 ^ s * v.toNat := by
  have hfit : 2 ^ s * v.toNat < 2 ^ 64 := by
    calc 2 ^ s * v.toNat < 2 ^ s * 2 ^ (64 - s) := Nat.mul_lt_mul_of_pos_left hv (Nat.two_pow_pos s)
      _ = 2 ^ 64 := by rw [← Nat.pow_add, Nat.add_sub_cancel' (Nat.le_of_lt hs)]
  rw [UInt64.toNat_shiftLeft, toNat_shiftAmount hs, Nat.shiftLeft_eq, Nat.mul_comm, Nat.mod_eq_of_lt hfit]

/-- Low bits of one word below the bits of another. -/
theorem toNat_and_or_shiftLeft (hs : s < 64) (hv : v.toNat < 2 ^ (64 - s)) :
    ((x &&& ((1 : UInt64) <<< UInt64.ofNat s - 1)) ||| v <<< UInt64.ofNat s).toNat =
      2 ^ s * v.toNat + x.toNat % 2 ^ s := by
  rw [UInt64.toNat_or, UInt64.toNat_and, toNat_lowMask hs, toNat_shiftLeft_of_lt hs hv, Nat.and_two_pow_sub_one_eq_mod,
    Nat.or_comm, Nat.two_pow_add_eq_or_of_lt (Nat.mod_lt _ (Nat.two_pow_pos s))]

end Halves
end Words
