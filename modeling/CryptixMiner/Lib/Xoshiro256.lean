import Mathlib.Algebra.Module.ZMod
import CryptixMiner.Lib.BinaryPoly
import CryptixMiner.Lib.Eager
import CryptixMiner.Lib.FermatFactors
import CryptixMiner.Lib.Loop
import CryptixMiner.Lib.Orbit

/-! The linear engine of the xoshiro256 generators. Its states form a space over the field of two elements on which
    a step is linear and injective, and apart from zero they lie on one cycle of `2 ^ 256 - 1` steps. -/

namespace Xoshiro256
open BinaryPoly Eager Polynomial

/-- Four words. Their sum is the exclusive or. -/
@[ext] structure Quad where
  s0 : UInt64
  s1 : UInt64
  s2 : UInt64
  s3 : UInt64
deriving DecidableEq

namespace Quad

instance : Zero Quad := ⟨⟨0, 0, 0, 0⟩⟩
instance : Neg Quad := ⟨id⟩
instance : Add Quad := ⟨fun s t => ⟨s.s0 ^^^ t.s0, s.s1 ^^^ t.s1, s.s2 ^^^ t.s2, s.s3 ^^^ t.s3⟩⟩

theorem zero_def : (0 : Quad) = ⟨0, 0, 0, 0⟩ := rfl

theorem add_def (s t : Quad) : s + t = ⟨s.s0 ^^^ t.s0, s.s1 ^^^ t.s1, s.s2 ^^^ t.s2, s.s3 ^^^ t.s3⟩ := rfl

instance : AddCommGroup Quad where
  add_assoc s t u := Quad.ext (UInt64.xor_assoc _ _ _) (UInt64.xor_assoc _ _ _) (UInt64.xor_assoc _ _ _)
    (UInt64.xor_assoc _ _ _)
  zero_add s := Quad.ext UInt64.zero_xor UInt64.zero_xor UInt64.zero_xor UInt64.zero_xor
  add_zero s := Quad.ext UInt64.xor_zero UInt64.xor_zero UInt64.xor_zero UInt64.xor_zero
  neg_add_cancel s := Quad.ext UInt64.xor_self UInt64.xor_self UInt64.xor_self UInt64.xor_self
  add_comm s t := Quad.ext (UInt64.xor_comm _ _) (UInt64.xor_comm _ _) (UInt64.xor_comm _ _) (UInt64.xor_comm _ _)
  nsmul := nsmulRec
  zsmul := zsmulRec

theorem add_self (s : Quad) : s + s = 0 :=
  Quad.ext UInt64.xor_self UInt64.xor_self UInt64.xor_self UInt64.xor_self

instance : Module (ZMod 2) Quad := AddCommGroup.zmodModule fun s => by rw [two_nsmul, add_self]

def words : Quad ≃ (UInt64 × UInt64) × (UInt64 × UInt64) where
  toFun s := ((s.s0, s.s1), (s.s2, s.s3))
  invFun w := ⟨w.1.1, w.1.2, w.2.1, w.2.2⟩
  left_inv _ := rfl
  right_inv _ := rfl

def wordFin : UInt64 ≃ Fin (2 ^ 64) where
  toFun := UInt64.toFin
  invFun := UInt64.ofFin
  left_inv _ := rfl
  right_inv _ := rfl

theorem card_eq : Nat.card Quad = 2 ^ 256 := by
  have hword : Nat.card UInt64 = 2 ^ 64 := (Nat.card_congr wordFin).trans (Nat.card_fin _)
  rw [Nat.card_congr words, Nat.card_prod, Nat.card_prod, hword]
  norm_num

instance : Finite Quad := Nat.finite_of_card_ne_zero (by rw [card_eq]; decide)

end Quad

/-! ### The step -/

def rotl (x : UInt64) : UInt64 := (x <<< 45) ||| (x >>> 19)

/-- The words after a step; each assignment of the generators uses the words assigned before it. -/
def next (s : Quad) : Quad where
  s0 := s.s0 ^^^ (s.s3 ^^^ s.s1)
  s1 := s.s1 ^^^ (s.s2 ^^^ s.s0)
  s2 := (s.s2 ^^^ s.s0) ^^^ (s.s1 <<< 17)
  s3 := rotl (s.s3 ^^^ s.s1)

theorem rotl_xor (x y : UInt64) : rotl (x ^^^ y) = rotl x ^^^ rotl y := by
  refine UInt64.eq_of_toBitVec_eq (BitVec.eq_of_getLsbD_eq fun i hi => ?_)
  simp only [rotl, UInt64.toBitVec_or, UInt64.toBitVec_xor, UInt64.toBitVec_shiftLeft, UInt64.toBitVec_shiftRight,
    UInt64.toBitVec_ofNat, BitVec.reduceMod, BitVec.reduceToNat, BitVec.shiftLeft_eq', BitVec.ushiftRight_eq',
    BitVec.getLsbD_or, BitVec.getLsbD_xor, BitVec.getLsbD_shiftLeft, BitVec.getLsbD_ushiftRight, hi, decide_true,
    Bool.true_and]
  rcases Nat.lt_or_ge i 45 with hlow | hhigh
  · simp [hlow]
  · -- The part that is shifted right has no bit here.
    have hbig : 64 ≤ 19 + i := by omega
    simp [Nat.not_lt.mpr hhigh, BitVec.getLsbD_of_ge _ _ hbig]

theorem next_zero : next 0 = 0 := by
  simp [next, rotl, Quad.zero_def]

theorem xor_xor_xor_comm (a b c d : UInt64) : a ^^^ b ^^^ (c ^^^ d) = a ^^^ c ^^^ (b ^^^ d) := by
  rw [UInt64.xor_assoc, ← UInt64.xor_assoc b, UInt64.xor_comm b c, UInt64.xor_assoc c, ← UInt64.xor_assoc a]

theorem next_add (s t : Quad) : next (s + t) = next s + next t := by
  simp only [next, Quad.add_def, rotl_xor, UInt64.shiftLeft_xor, Quad.mk.injEq]
  refine ⟨?_, ?_, ?_, ?_⟩
  · rw [xor_xor_xor_comm s.s3, xor_xor_xor_comm s.s0]
  · rw [xor_xor_xor_comm s.s2, xor_xor_xor_comm s.s1]
  · rw [xor_xor_xor_comm s.s2, xor_xor_xor_comm (s.s2 ^^^ s.s0)]
  · rw [xor_xor_xor_comm (rotl s.s3)]

def nextHom : Quad →+ Quad where
  toFun := next
  map_zero' := next_zero
  map_add' := next_add

/-- The step as a linear map. -/
def T : Module.End (ZMod 2) Quad := nextHom.toZModLinearMap 2

@[simp] theorem T_apply (s : Quad) : T s = next s := rfl

theorem T_pow_apply (n : Nat) (s : Quad) : (T ^ n) s = next^[n] s := by
  rw [Module.End.pow_apply]
  rfl

theorem rotl_eq_zero {x : UInt64} (h : rotl x = 0) : x = 0 := by
  obtain ⟨hleft, hright⟩ := UInt64.or_eq_zero_iff.mp h
  have hl := congrArg UInt64.toNat hleft
  have hr := congrArg UInt64.toNat hright
  rw [UInt64.toNat_shiftLeft] at hl
  rw [UInt64.toNat_shiftRight] at hr
  simp only [UInt64.reduceToNat, Nat.reduceMod, Nat.shiftLeft_eq, Nat.shiftRight_eq_div_pow] at hl hr
  refine UInt64.toNat_inj.mp ?_
  simp only [UInt64.reduceToNat]
  omega

theorem shiftLeft_fixed {x : UInt64} (h : x = x <<< 17) : x = 0 := by
  have hnat := congrArg UInt64.toNat h
  rw [UInt64.toNat_shiftLeft] at hnat
  simp only [UInt64.reduceToNat, Nat.reduceMod, Nat.shiftLeft_eq] at hnat
  have hlt := x.toNat_lt
  refine UInt64.toNat_inj.mp ?_
  simp only [UInt64.reduceToNat]
  omega

theorem next_eq_zero {s : Quad} (h : next s = 0) : s = 0 := by
  obtain ⟨s0, s1, s2, s3⟩ := s
  simp only [next, Quad.zero_def, Quad.mk.injEq] at h
  obtain ⟨h0, h1, h2, h3⟩ := h
  have h31 := rotl_eq_zero h3
  rw [h31, UInt64.xor_zero] at h0
  obtain rfl : s3 = s1 := UInt64.xor_eq_zero_iff.mp h31
  subst h0
  rw [UInt64.xor_zero, UInt64.xor_eq_zero_iff] at h1
  subst h1
  rw [UInt64.xor_zero, UInt64.xor_eq_zero_iff] at h2
  obtain rfl := shiftLeft_fixed h2
  rfl

theorem next_injective : Function.Injective next := fun s t h => by
  have hsum : next (s + t) = 0 := by rw [next_add, h, Quad.add_self]
  have hzero := next_eq_zero hsum
  calc s = s + (t + t) := by rw [Quad.add_self, add_zero]
    _ = (s + t) + t := (add_assoc s t t).symm
    _ = t := by rw [hzero, zero_add]

theorem next_iterate_zero (n : Nat) : next^[n] 0 = 0 := Function.iterate_fixed next_zero n

/-! ### Sums of selected states -/

/-- The sum of the states that `bits` selects among the next `n`. -/
def select (bits : Nat → Bool) (n : Nat) (s : Quad) : Quad :=
  ∑ k ∈ Finset.range n, if bits k then next^[k] s else 0

section Select
variable {bits : Nat → Bool}

theorem select_succ (bits : Nat → Bool) (n : Nat) (s : Quad) :
    select bits (n + 1) s = select bits n s + (if bits n then next^[n] s else 0) :=
  Finset.sum_range_succ _ n

theorem select_succ' (bits : Nat → Bool) (n : Nat) (s : Quad) :
    select bits (n + 1) s = (if bits 0 then s else 0) + select (fun k => bits (k + 1)) n (next s) := by
  rw [select, Finset.sum_range_succ', add_comm]
  rfl

theorem select_add (bits : Nat → Bool) (m n : Nat) (s : Quad) :
    select bits (m + n) s = select bits m s + select (fun k => bits (m + k)) n (next^[m] s) := by
  rw [select, Finset.sum_range_add]
  refine congrArg (select bits m s + ·) (Finset.sum_congr rfl fun k _ => ?_)
  rw [← Function.iterate_add_apply, Nat.add_comm k m]

theorem select_next (bits : Nat → Bool) (n : Nat) (s : Quad) : select bits n (next s) = next (select bits n s) := by
  induction n with
  | zero => exact next_zero.symm
  | succ n ih =>
    have hterm : (if bits n then next^[n] (next s) else 0) = next (if bits n then next^[n] s else 0) := by
      split
      · rw [← Function.iterate_succ_apply, Function.iterate_succ_apply']
      · exact next_zero.symm
    rw [select_succ, select_succ, ih, next_add, hterm]

@[simp] theorem select_zero (bits : Nat → Bool) (n : Nat) : select bits n 0 = 0 :=
  Finset.sum_eq_zero fun k _ => by rw [next_iterate_zero, ite_self]

/-- A loop that adds the state up where a bit is set, and steps. -/
theorem forRange_select (bits : Nat → Bool) (n : Nat) (a s : Quad) :
    Loop.forRange 0 n (fun b q => (if bits b then q.1 + q.2 else q.1, next q.2)) (a, s) =
      (a + select bits n s, next^[n] s) := by
  induction n with
  | zero => rw [Loop.forRange_self, select, Finset.sum_range_zero, add_zero]; rfl
  | succ n ih =>
    rw [Loop.forRange_succ (Nat.zero_le n), ih, select_succ, Function.iterate_succ_apply', ← add_assoc]
    split
    · rfl
    · rw [add_zero]

end Select

theorem aeval_pack (L n : Nat) (s : Quad) : aeval T (poly (pack L n)) s = select n.testBit L s := by
  induction L generalizing n s with
  | zero =>
    rw [pack, poly_zero, map_zero, LinearMap.zero_apply]
    rfl
  | succ L ih =>
    obtain ⟨hmod, hdiv⟩ := pack_digit L n
    have hbits : (fun k => n.testBit (k + 1)) = (n / 2).testBit := by
      funext k
      exact Nat.testBit_succ n k
    rw [aeval_poly, hmod, hdiv, T_apply, ih, select_succ', hbits, Nat.testBit_zero]
    rcases Nat.mod_two_eq_zero_or_one n with h | h
    · simp [h]
    · simp [h]

/-! ### Evaluation on numbers -/

section Eval
variable {α : Type}

/-- The words of a state, as numbers. -/
def Quad.toNats (s : Quad) : Nat × Nat × Nat × Nat := (s.s0.toNat, s.s1.toNat, s.s2.toNat, s.s3.toNat)

/-- A step on numbers below `2 ^ 64`; what is to be done next gets numbers that are computed. -/
def nextNat (s0 s1 s2 s3 : Nat) (k : Nat → Nat → Nat → Nat → α) : α :=
  force (s3 ^^^ s1) fun t3 =>
  force (s2 ^^^ s0) fun t2 =>
  force (s0 ^^^ t3) fun n0 =>
  force (s1 ^^^ t2) fun n1 =>
  force (t2 ^^^ (s1 <<< 17 % 2 ^ 64)) fun n2 =>
  force ((t3 <<< 45 % 2 ^ 64) ||| (t3 >>> 19)) fun n3 => k n0 n1 n2 n3

theorem nextNat_toNat (s : Quad) (k : Nat → Nat → Nat → Nat → α) :
    nextNat s.s0.toNat s.s1.toNat s.s2.toNat s.s3.toNat k =
      k (next s).s0.toNat (next s).s1.toNat (next s).s2.toNat (next s).s3.toNat := by
  simp only [nextNat, force_eq, next, rotl, UInt64.toNat_xor, UInt64.toNat_or, UInt64.toNat_shiftLeft,
    UInt64.toNat_shiftRight, UInt64.reduceToNat, Nat.reduceMod]

/-- The sum of the states that a packed polynomial selects among the next `L`, added to `a`. -/
def combine : (L n s0 s1 s2 s3 a0 a1 a2 a3 : Nat) → Nat × Nat × Nat × Nat
  | 0, _, _, _, _, _, a0, a1, a2, a3 => (a0, a1, a2, a3)
  | L + 1, n, s0, s1, s2, s3, a0, a1, a2, a3 =>
    force (n % base) fun bit =>
    force (n / base) fun rest =>
    force (a0 ^^^ bit * s0) fun b0 =>
    force (a1 ^^^ bit * s1) fun b1 =>
    force (a2 ^^^ bit * s2) fun b2 =>
    force (a3 ^^^ bit * s3) fun b3 =>
    nextNat s0 s1 s2 s3 fun t0 t1 t2 t3 => combine L rest t0 t1 t2 t3 b0 b1 b2 b3

theorem combine_eq {L n : Nat} (hn : Small 1 n) (hlt : n < base ^ L) (s a : Quad) :
    combine L n s.s0.toNat s.s1.toNat s.s2.toNat s.s3.toNat a.s0.toNat a.s1.toNat a.s2.toNat a.s3.toNat =
      (a + aeval T (poly n) s).toNats := by
  induction L generalizing n s a with
  | zero =>
    obtain rfl : n = 0 := by simpa using hlt
    rw [poly_zero, map_zero, LinearMap.zero_apply, add_zero]
    rfl
  | succ L ih =>
    have hstep : a + aeval T (poly n) s = (a + (n % base) • s) + aeval T (poly (n / base)) (next s) := by
      rw [aeval_poly, T_apply, add_assoc]
    have hdigit : n % base = 0 ∨ n % base = 1 := by
      have := (small_iff.mp hn).1
      omega
    simp only [combine, force_eq, nextNat_toNat]
    rw [hstep, ← ih (small_iff.mp hn).2 (div_base_lt hlt)]
    rcases hdigit with h | h
    · simp [h]
    · simp [h, Quad.add_def]

theorem Quad.toNats_inj {s t : Quad} (h : s.toNats = t.toNats) : s = t := by
  simp only [toNats, Prod.mk.injEq, UInt64.toNat_inj] at h
  obtain ⟨h0, h1, h2, h3⟩ := h
  exact Quad.ext h0 h1 h2 h3

end Eval

/-! ### The cycle -/

/-- The lowest bit of the first word alone. -/
def unit : Quad := ⟨1, 0, 0, 0⟩

/-- The characteristic polynomial of the step, packed. -/
def charPoly : Nat := pack (256 + 1) 0x10003c03c3f3ecb1904b4edcf26259f850280002bcefd1a5e9d116f2bb0f0f001

/-- The quotient of `X ^ 512` by it. -/
def quotient : Nat := pack (256 + 1) 0x10003c0396f32c298132b61f2778b69e1aa1297eadd5e76b793a906d956fbc489

theorem charPoly_modulus : Modulus 256 charPoly where
  pos := by decide
  small := (pack_spec (256 + 1) _).1
  lt := (pack_spec (256 + 1) _).2
  fits := by decide

theorem combine_unit {L n : Nat} (hn : Small 1 n) (hlt : n < base ^ L) :
    combine L n 1 0 0 0 0 0 0 0 = (aeval T (poly n) unit).toNats := by
  rw [← zero_add (aeval T (poly n) unit)]
  exact combine_eq hn hlt unit 0

theorem aeval_charPoly : aeval T (poly charPoly) unit = 0 := by
  refine Quad.toNats_inj ?_
  rw [← combine_unit charPoly_modulus.small charPoly_modulus.lt]
  decide +kernel

theorem combine_pack (L n : Nat) (s a : Quad) :
    combine L (pack L n) s.s0.toNat s.s1.toNat s.s2.toNat s.s3.toNat a.s0.toNat a.s1.toNat a.s2.toNat a.s3.toNat =
      (a + select n.testBit L s).toNats := by
  rw [combine_eq (pack_spec L n).1 (pack_spec L n).2, aeval_pack]

/-- Where `n` steps from the unit lead, by the remainder of `X ^ n`. -/
def leap (n : Nat) : Option (Nat × Nat × Nat × Nat) :=
  (powX 256 charPoly quotient 257 n).map fun r => combine 256 r 1 0 0 0 0 0 0 0

theorem leap_eq {n : Nat} {w : Nat × Nat × Nat × Nat} (h : leap n = some w) : (next^[n] unit).toNats = w := by
  obtain ⟨r, hr, rfl⟩ := Option.map_eq_some_iff.mp h
  have hstands := stands_powX charPoly_modulus (by decide) hr
  have haeval := hstands.aeval_eq aeval_charPoly
  rw [map_pow, aeval_X, T_pow_apply] at haeval
  rw [haeval, ← combine_unit hstands.small hstands.lt]

theorem leap_cycle : leap (2 ^ 256 - 1) = some (1, 0, 0, 0) := by decide +kernel

theorem leap_factors : ∀ p ∈ FermatFactors.factors, (leap ((2 ^ 256 - 1) / p)).any (· != (1, 0, 0, 0)) = true := by
  decide +kernel

theorem minimalPeriod_unit : Function.minimalPeriod next unit = 2 ^ 256 - 1 := by
  refine Orbit.minimalPeriod_eq (by decide) (Quad.toNats_inj (leap_eq leap_cycle)) fun p hp hdvd hback => ?_
  have hany := leap_factors p (FermatFactors.mem_factors hp hdvd)
  obtain ⟨w, hw, hne⟩ := (Option.any_eq_true _ _).mp hany
  have hunit : w = unit.toNats := by rw [← leap_eq hw, hback]
  rw [hunit] at hne
  exact absurd hne (by decide)

/-- Every state but zero lies on the cycle of the unit. -/
theorem exists_iterate_unit {s : Quad} (hs : s ≠ 0) : ∃ i, next^[i] unit = s := by
  have hcard : Function.minimalPeriod next unit + 1 = Nat.card Quad := by
    rw [minimalPeriod_unit, Quad.card_eq]
    norm_num
  exact Orbit.exists_iterate_eq next_injective next_zero (by decide) hcard hs

/-- Rounds of `m` steps, for an `m` prime to the length of the cycle, lead from each state but zero to each. -/
theorem exists_iterate_mul {m : Nat} (hm : Nat.Coprime m (2 ^ 256 - 1)) {s t : Quad} (hs : s ≠ 0) (ht : t ≠ 0) :
    ∃ k, next^[m * k] s = t := by
  obtain ⟨i, rfl⟩ := exists_iterate_unit hs
  obtain ⟨j, rfl⟩ := exists_iterate_unit ht
  exact Orbit.exists_iterate_mul (Quad.toNats_inj (leap_eq leap_cycle)) hm (by decide) i j

/-- Two maps that commute with the step agree at a state but zero where they agree at the unit. -/
theorem eq_iff_unit {f g : Quad → Quad} (hf : ∀ s, f (next s) = next (f s)) (hg : ∀ s, g (next s) = next (g s))
    {s : Quad} (hs : s ≠ 0) : f s = g s ↔ f unit = g unit := by
  obtain ⟨i, rfl⟩ := exists_iterate_unit hs
  have hfi : f (next^[i] unit) = next^[i] (f unit) := (Function.Semiconj.iterate_right hf i) unit
  have hgi : g (next^[i] unit) = next^[i] (g unit) := (Function.Semiconj.iterate_right hg i) unit
  rw [hfi, hgi]
  exact (next_injective.iterate i).eq_iff

/-! ### Leaps -/

/-- Two numbers of steps lead to the same state just when they differ by rounds of the cycle. -/
theorem iterate_eq_iff {s : Quad} (hs : s ≠ 0) {i j : Nat} :
    next^[i] s = next^[j] s ↔ i ≡ j [MOD 2 ^ 256 - 1] := by
  obtain ⟨k, rfl⟩ := exists_iterate_unit hs
  have hmod (n : Nat) : next^[n] unit = next^[n % (2 ^ 256 - 1)] unit := by
    rw [← minimalPeriod_unit, Function.iterate_mod_minimalPeriod_eq]
  have hlt (n : Nat) : n % (2 ^ 256 - 1) < Function.minimalPeriod next unit := by
    rw [minimalPeriod_unit]
    exact Nat.mod_lt _ (by decide)
  rw [← Function.iterate_add_apply, ← Function.iterate_add_apply, hmod (i + k), hmod (j + k),
    Function.iterate_eq_iterate_iff_of_lt_minimalPeriod (hlt _) (hlt _)]
  exact ⟨fun h => Nat.ModEq.add_right_cancel' k h, fun h => h.add_right k⟩

theorem iterate_ne_zero {s : Quad} (hs : s ≠ 0) (n : Nat) : next^[n] s ≠ 0 := fun h =>
  hs (next_injective.iterate n (h.trans (next_iterate_zero n).symm))

/-- A map that commutes with the step and keeps zero alone is a number of steps. -/
theorem exists_leap {f : Quad → Quad} (hf : ∀ s, f (next s) = next (f s)) (h0 : f 0 = 0) (hunit : f unit ≠ 0) :
    ∃ m, ∀ s, f s = next^[m] s := by
  obtain ⟨m, hm⟩ := exists_iterate_unit hunit
  refine ⟨m, fun s => ?_⟩
  by_cases hs : s = 0
  · rw [hs, h0, next_iterate_zero]
  · refine (eq_iff_unit hf (fun s => ?_) hs).mpr hm.symm
    rw [← Function.iterate_succ_apply, Function.iterate_succ_apply']

/-- Leaps of `m` steps go once around the whole cycle where no prime factor of its length brings them back early. -/
theorem coprime_of_leaps {m : Nat}
    (h : ∀ p ∈ FermatFactors.factors, next^[m * ((2 ^ 256 - 1) / p)] unit ≠ unit) : Nat.Coprime m (2 ^ 256 - 1) := by
  refine Nat.coprime_of_dvd fun p hp hm hN => h p (FermatFactors.mem_factors hp hN) ?_
  obtain ⟨k, rfl⟩ := hm
  have hback : next^[2 ^ 256 - 1] unit = unit := Quad.toNats_inj (leap_eq leap_cycle)
  generalize 2 ^ 256 - 1 = N at hN hback
  obtain ⟨d, rfl⟩ := hN
  rw [Nat.mul_div_cancel_left d hp.pos, Nat.mul_right_comm, Function.iterate_mul]
  exact Function.iterate_fixed hback k

end Xoshiro256
