import Mathlib.Algebra.Polynomial.AlgebraMap
import Mathlib.Algebra.Field.ZMod
import Mathlib.Algebra.Algebra.ZMod
import Mathlib.Data.Nat.Digits.Lemmas

/-! Polynomials over the field of two elements, packed into numbers: one digit of base `2 ^ 16` a coefficient, so
    that the product of two numbers sums the products of coefficients without a carry. Powers of `X` modulo a
    polynomial are computed that way, and carried over to powers of a linear map. -/

namespace BinaryPoly
open Polynomial

/-- The base of the digits, one of which holds a coefficient. -/
def base : Nat := 2 ^ 16

/-- The polynomial whose coefficients are the digits, read modulo two. -/
noncomputable def poly (n : Nat) : (ZMod 2)[X] := Nat.ofDigits X (Nat.digits base n)

/-- No digit is above `m`. -/
def Small (m n : Nat) : Prop := ∀ d ∈ Nat.digits base n, d ≤ m

/-- `L` digits that are one. -/
def ones : Nat → Nat
  | 0 => 0
  | L + 1 => 1 + base * ones L

/-- The packed form of the polynomial whose coefficients are the lowest `L` bits. -/
def pack : Nat → Nat → Nat
  | 0, _ => 0
  | L + 1, n => n % 2 + base * pack L (n / 2)

/-! ### Digit by digit -/

theorem digitInduction {motive : Nat → Prop} (zero : motive 0) (digit : ∀ n, motive (n / base) → motive n)
    (n : Nat) : motive n := by
  induction n using Nat.strong_induction_on with
  | _ n ih =>
    rcases Nat.eq_zero_or_pos n with rfl | hn
    · exact zero
    · exact digit n (ih (n / base) (Nat.div_lt_self hn (by decide)))

@[simp] theorem poly_zero : poly 0 = 0 := by
  rw [poly, Nat.digits_zero]
  rfl

theorem poly_eq (n : Nat) : poly n = ((n % base : Nat) : (ZMod 2)[X]) + X * poly (n / base) := by
  rcases Nat.eq_zero_or_pos n with rfl | hn
  · simp
  · rw [poly, Nat.digits_def' (by decide) hn]
    rfl

theorem small_iff {m n : Nat} : Small m n ↔ n % base ≤ m ∧ Small m (n / base) := by
  rcases Nat.eq_zero_or_pos n with rfl | hn
  · simp [Small]
  · rw [Small, Nat.digits_def' (by decide) hn]
    exact List.forall_mem_cons

theorem small_zero (m : Nat) : Small m 0 := by simp [Small]

theorem Small.mono {m k n : Nat} (h : Small m n) (hk : m ≤ k) : Small k n := fun d hd => (h d hd).trans hk

theorem poly_base_mul (n : Nat) : poly (base * n) = X * poly n := by
  rw [poly_eq, Nat.mul_mod_right, Nat.mul_div_cancel_left n (by decide), Nat.cast_zero, zero_add]

theorem small_base_mul {m n : Nat} (h : Small m n) : Small m (base * n) := by
  rw [small_iff, Nat.mul_mod_right, Nat.mul_div_cancel_left n (by decide)]
  exact ⟨Nat.zero_le m, h⟩

/-! ### Sums and products without a carry -/

section Carry
variable {m k a b : Nat}

theorem add_digit (ha : Small m a) (hb : Small k b) (h : m + k < base) :
    (a + b) % base = a % base + b % base ∧ (a + b) / base = a / base + b / base := by
  have hma := (small_iff.mp ha).1
  have hkb := (small_iff.mp hb).1
  unfold base at *
  omega

theorem small_add (ha : Small m a) (hb : Small k b) (h : m + k < base) : Small (m + k) (a + b) := by
  induction a using digitInduction generalizing b with
  | zero =>
    rw [Nat.zero_add]
    exact hb.mono (Nat.le_add_left k m)
  | digit a ih =>
    obtain ⟨hmod, hdiv⟩ := add_digit ha hb h
    rw [small_iff, hmod, hdiv]
    exact ⟨Nat.add_le_add (small_iff.mp ha).1 (small_iff.mp hb).1, ih (small_iff.mp ha).2 (small_iff.mp hb).2⟩

theorem poly_add (ha : Small m a) (hb : Small k b) (h : m + k < base) : poly (a + b) = poly a + poly b := by
  induction a using digitInduction generalizing b with
  | zero => rw [Nat.zero_add, poly_zero, zero_add]
  | digit a ih =>
    obtain ⟨hmod, hdiv⟩ := add_digit ha hb h
    rw [poly_eq (a + b), poly_eq a, poly_eq b, hmod, hdiv, ih (small_iff.mp ha).2 (small_iff.mp hb).2, Nat.cast_add]
    ring

/-- A factor splits into its lowest digit and the others. -/
theorem mul_digit (a b : Nat) : a * b = b % base * a + base * (a * (b / base)) := by
  calc a * b = a * (b % base + base * (b / base)) := by rw [Nat.mod_add_div]
    _ = b % base * a + base * (a * (b / base)) := by ring

theorem div_base_lt {L : Nat} (hb : b < base ^ (L + 1)) : b / base < base ^ L := by
  rw [Nat.div_lt_iff_lt_mul (by decide), ← Nat.pow_succ]
  exact hb

theorem mul_spec {L : Nat} (ha : Small 1 a) (hb : Small 1 b) (hlt : b < base ^ L) (hL : L < base) :
    Small L (a * b) ∧ poly (a * b) = poly a * poly b := by
  induction L generalizing b with
  | zero =>
    obtain rfl : b = 0 := by simpa using hlt
    simp [small_zero]
  | succ L ih =>
    obtain ⟨hsmall, hpoly⟩ := ih (small_iff.mp hb).2 (div_base_lt hlt) (Nat.lt_of_succ_lt hL)
    have hdigit : b % base = 0 ∨ b % base = 1 := by
      have := (small_iff.mp hb).1
      omega
    have hlow : Small 1 (b % base * a) ∧ poly (b % base * a) = ((b % base : Nat) : (ZMod 2)[X]) * poly a := by
      rcases hdigit with h | h
      · rw [h]
        simp [small_zero]
      · rw [h, Nat.one_mul, Nat.cast_one, one_mul]
        exact ⟨ha, rfl⟩
    have hsum : 1 + L < base := by omega
    rw [mul_digit, Nat.add_comm L 1]
    refine ⟨small_add hlow.1 (small_base_mul hsmall) hsum, ?_⟩
    rw [poly_add hlow.1 (small_base_mul hsmall) hsum, hlow.2, poly_base_mul, hpoly, poly_eq b]
    ring

end Carry

/-! ### Digits modulo two, and the digits from a place on -/

section Mask
variable {L n : Nat}

theorem and_ones_digit (L n : Nat) :
    (n &&& ones (L + 1)) % base = n % base % 2 ∧ (n &&& ones (L + 1)) / base = n / base &&& ones L := by
  have hmod : ones (L + 1) % 2 ^ 16 = 1 := by
    rw [ones, base]
    omega
  have hdiv : ones (L + 1) / 2 ^ 16 = ones L := by
    rw [ones, base]
    omega
  rw [base, Nat.and_mod_two_pow, Nat.and_div_two_pow, hmod, hdiv, Nat.and_one_is_mod]
  exact ⟨rfl, rfl⟩

theorem small_and_ones (L n : Nat) : Small 1 (n &&& ones L) := by
  induction L generalizing n with
  | zero =>
    rw [ones, Nat.and_zero]
    exact small_zero 1
  | succ L ih =>
    obtain ⟨hmod, hdiv⟩ := and_ones_digit L n
    rw [small_iff, hmod, hdiv]
    exact ⟨by omega, ih _⟩

theorem poly_and_ones (h : n < base ^ L) : poly (n &&& ones L) = poly n := by
  induction L generalizing n with
  | zero =>
    obtain rfl : n = 0 := by simpa using h
    rw [Nat.zero_and]
  | succ L ih =>
    obtain ⟨hmod, hdiv⟩ := and_ones_digit L n
    have htwo : ((2 : Nat) : (ZMod 2)[X]) = 0 := CharP.cast_eq_zero (ZMod 2)[X] 2
    have hcast : ((n % base % 2 : Nat) : (ZMod 2)[X]) = ((n % base : Nat) : (ZMod 2)[X]) := by
      calc ((n % base % 2 : Nat) : (ZMod 2)[X])
          = ((n % base % 2 + 2 * (n % base / 2) : Nat) : (ZMod 2)[X]) := by
            rw [Nat.cast_add, Nat.cast_mul, htwo, zero_mul, add_zero]
        _ = ((n % base : Nat) : (ZMod 2)[X]) := by rw [Nat.mod_add_div]
    rw [poly_eq (n &&& _), poly_eq n, hmod, hdiv, ih (div_base_lt h), hcast]

theorem ones_lt (L : Nat) : ones L < base ^ L := by
  induction L with
  | zero => exact Nat.one_pos
  | succ L ih =>
    rw [ones, Nat.pow_succ, Nat.mul_comm]
    have := Nat.mul_le_mul_right base (Nat.succ_le_of_lt ih)
    unfold base at *
    omega

theorem small_div (h : Small 1 n) (j : Nat) : Small 1 (n / base ^ j) := by
  induction j with
  | zero => rwa [Nat.pow_zero, Nat.div_one]
  | succ j ih =>
    rw [Nat.pow_succ, ← Nat.div_div_eq_div_mul]
    exact (small_iff.mp ih).2

end Mask

theorem pack_digit (L n : Nat) : pack (L + 1) n % base = n % 2 ∧ pack (L + 1) n / base = pack L (n / 2) := by
  have hbit : n % 2 < base := by
    unfold base
    omega
  constructor
  · rw [pack, Nat.add_mul_mod_self_left, Nat.mod_eq_of_lt hbit]
  · rw [pack, Nat.add_mul_div_left _ _ (by decide), Nat.div_eq_of_lt hbit, Nat.zero_add]

theorem pack_spec (L n : Nat) : Small 1 (pack L n) ∧ pack L n < base ^ L := by
  induction L generalizing n with
  | zero => exact ⟨small_zero 1, Nat.one_pos⟩
  | succ L ih =>
    obtain ⟨hsmall, hlt⟩ := ih (n / 2)
    obtain ⟨hmod, hdiv⟩ := pack_digit L n
    refine ⟨?_, ?_⟩
    · rw [small_iff, hmod, hdiv]
      exact ⟨by omega, hsmall⟩
    · rw [pack, Nat.pow_succ, Nat.mul_comm _ base]
      have := Nat.mul_le_mul_left base (Nat.succ_le_of_lt hlt)
      unfold base at *
      omega

/-! ### Modulo a polynomial -/

/-- The product modulo `chi`, of degree `d`: `mu` is the quotient of `X ^ (2 * d)` by it, with which a quotient is
    guessed. Nothing, where the guess leaves more than `d` digits. -/
def mulMod (d chi mu a b : Nat) : Option Nat :=
  let q := (((a * b &&& ones (2 * d)) / base ^ d * mu) &&& ones (2 * d)) / base ^ d
  let r := (a * b + q * chi) &&& ones (2 * d + 2)
  if r < base ^ d then some r else none

/-- `X ^ n` modulo `chi`, for `n` of at most `bits` bits. -/
def powX (d chi mu : Nat) : Nat → Nat → Option Nat
  | 0, n => if n = 0 then some 1 else none
  | bits + 1, n => do
    let h ← powX d chi mu bits (n / 2)
    let s ← mulMod d chi mu h h
    if n % 2 = 1 then mulMod d chi mu s base else some s

/-- The power `n` of what `q` stands for, for `n` of at most `bits` bits. -/
def powOf (d chi mu q : Nat) : Nat → Nat → Option Nat
  | 0, n => if n = 0 then some 1 else none
  | bits + 1, n => do
    let h ← powOf d chi mu q bits (n / 2)
    let s ← mulMod d chi mu h h
    if n % 2 = 1 then mulMod d chi mu s q else some s

/-- The number is a remainder of `p` modulo the polynomial of `chi`, in packed form. -/
structure Stands (d chi n : Nat) (p : (ZMod 2)[X]) : Prop where
  small : Small 1 n
  lt : n < base ^ d
  dvd : poly chi ∣ poly n - p

/-- What a modulus must be: its coefficients packed, and of degree at most `d`. -/
structure Modulus (d chi : Nat) : Prop where
  pos : 0 < d
  small : Small 1 chi
  lt : chi < base ^ (d + 1)
  fits : 2 * d + 1 < base

section Modulo
variable {d chi mu a b r n : Nat} {p q : (ZMod 2)[X]}

theorem Stands.mulMod (M : Modulus d chi) (ha : Stands d chi a p) (hb : Stands d chi b q)
    (h : mulMod d chi mu a b = some r) : Stands d chi r (p * q) := by
  have hfits := M.fits
  rw [BinaryPoly.mulMod] at h
  generalize hquot : (((a * b &&& ones (2 * d)) / base ^ d * mu) &&& ones (2 * d)) / base ^ d = guess at h
  split at h
  · rename_i hlt
    obtain rfl : _ = r := Option.some.inj h
    have hguess : Small 1 guess := hquot ▸ small_div (small_and_ones _ _) d
    have hguesslt : guess < base ^ d := by
      rw [← hquot, Nat.div_lt_iff_lt_mul (Nat.pow_pos (by decide)), ← Nat.pow_add, ← Nat.two_mul]
      exact Nat.and_le_right.trans_lt (ones_lt (2 * d))
    obtain ⟨hsab, hpab⟩ := mul_spec ha.small hb.small hb.lt (by omega : d < base)
    obtain ⟨hsgc, hpgc⟩ := mul_spec hguess M.small M.lt (by omega : d + 1 < base)
    have hsum : d + (d + 1) < base := by omega
    have hsumlt : a * b + guess * chi < base ^ (2 * d + 2) := by
      have h1 : a * b < base ^ (2 * d + 1) := by
        calc a * b < base ^ d * base ^ d := Nat.mul_lt_mul'' ha.lt hb.lt
          _ = base ^ (2 * d) := by rw [← Nat.pow_add, Nat.two_mul]
          _ ≤ base ^ (2 * d + 1) := Nat.pow_le_pow_right (by decide) (by omega)
      have h2 : guess * chi < base ^ (2 * d + 1) := by
        calc guess * chi < base ^ d * base ^ (d + 1) := Nat.mul_lt_mul'' hguesslt M.lt
          _ = base ^ (2 * d + 1) := by rw [← Nat.pow_add, Nat.two_mul, Nat.add_assoc]
      have h3 : base ^ (2 * d + 2) = base ^ (2 * d + 1) * base := Nat.pow_succ base (2 * d + 1)
      rw [h3]
      unfold base at *
      omega
    refine ⟨small_and_ones _ _, hlt, ?_⟩
    obtain ⟨u, hu⟩ := ha.dvd
    obtain ⟨v, hv⟩ := hb.dvd
    rw [poly_and_ones hsumlt, poly_add hsab hsgc hsum, hpab, hpgc, sub_eq_iff_eq_add.mp hu, sub_eq_iff_eq_add.mp hv]
    exact ⟨poly chi * u * v + u * q + v * p + poly guess, by ring⟩
  · cases h

theorem stands_one (M : Modulus d chi) : Stands d chi 1 1 := by
  refine ⟨?_, Nat.one_lt_pow M.pos.ne' (by decide), ?_⟩
  · rw [small_iff]
    exact ⟨by decide, small_zero 1⟩
  · have h : poly 1 = 1 := by
      rw [poly_eq]
      have hdiv : 1 / base = 0 := by decide
      have hmod : 1 % base = 1 := by decide
      rw [hdiv, hmod, poly_zero, mul_zero, add_zero, Nat.cast_one]
    rw [h, sub_self]
    exact dvd_zero _

theorem stands_X (M : Modulus d chi) (hd : 1 < d) : Stands d chi base X := by
  have hone := stands_one M
  have hpoly : poly base = X * poly 1 := by rw [← poly_base_mul, Nat.mul_one]
  have h1 : poly 1 = 1 := by
    have := poly_eq 1
    simpa [base] using this
  refine ⟨?_, ?_, ?_⟩
  · rw [← Nat.mul_one base]
    exact small_base_mul hone.small
  · calc base = base ^ 1 := (Nat.pow_one base).symm
      _ < base ^ d := Nat.pow_lt_pow_right (by decide) hd
  · rw [hpoly, h1, mul_one, sub_self]
    exact dvd_zero _

/-- What is computed for a power of `X` is its remainder. -/
theorem stands_powX (M : Modulus d chi) (hd : 1 < d) : ∀ {bits n r : Nat}, powX d chi mu bits n = some r →
    Stands d chi r (X ^ n)
  | 0, n, r, h => by
    rw [powX] at h
    split at h
    · rename_i hn
      obtain rfl : 1 = r := Option.some.inj h
      rw [hn, pow_zero]
      exact stands_one M
    · cases h
  | bits + 1, n, r, h => by
    rw [powX] at h
    obtain ⟨half, hhalf, h⟩ := Option.bind_eq_some_iff.mp h
    obtain ⟨square, hsquare, h⟩ := Option.bind_eq_some_iff.mp h
    have ih := stands_powX M hd hhalf
    have hsq := ih.mulMod M ih hsquare
    rw [← pow_add, ← two_mul] at hsq
    split at h
    · rename_i hodd
      have hn : n = 2 * (n / 2) + 1 := by omega
      rw [hn, pow_succ]
      exact hsq.mulMod M (stands_X M hd) h
    · rename_i heven
      have hn : n = 2 * (n / 2) := by omega
      obtain rfl : square = r := Option.some.inj h
      rw [hn]
      exact hsq

theorem stands_pack {L : Nat} (hL : L ≤ d) (n : Nat) : Stands d chi (pack L n) (poly (pack L n)) where
  small := (pack_spec L n).1
  lt := (pack_spec L n).2.trans_le (Nat.pow_le_pow_right (by decide) hL)
  dvd := by
    rw [sub_self]
    exact dvd_zero _

theorem stands_powOf (M : Modulus d chi) {m : Nat} (hm : Stands d chi m p) : ∀ {bits n r : Nat},
    powOf d chi mu m bits n = some r → Stands d chi r (p ^ n)
  | 0, n, r, h => by
    rw [powOf] at h
    split at h
    · rename_i hn
      obtain rfl : 1 = r := Option.some.inj h
      rw [hn, pow_zero]
      exact stands_one M
    · cases h
  | bits + 1, n, r, h => by
    rw [powOf] at h
    obtain ⟨half, hhalf, h⟩ := Option.bind_eq_some_iff.mp h
    obtain ⟨square, hsquare, h⟩ := Option.bind_eq_some_iff.mp h
    have ih := stands_powOf M hm hhalf
    have hsq := ih.mulMod M ih hsquare
    rw [← pow_add, ← two_mul] at hsq
    split at h
    · rename_i hodd
      have hn : n = 2 * (n / 2) + 1 := by omega
      rw [hn, pow_succ]
      exact hsq.mulMod M hm h
    · rename_i heven
      have hn : n = 2 * (n / 2) := by omega
      obtain rfl : square = r := Option.some.inj h
      rw [hn]
      exact hsq

end Modulo

/-- Modulo two, one less than an odd number is one more. -/
theorem poly_pack_pred {L n : Nat} (hL : 0 < L) (h : n % 2 = 1) : poly (pack L (n - 1)) = 1 + poly (pack L n) := by
  obtain ⟨L, rfl⟩ := Nat.exists_eq_succ_of_ne_zero hL.ne'
  rw [Nat.succ_eq_add_one]
  obtain ⟨hmod, hdiv⟩ := pack_digit L n
  obtain ⟨hmod', hdiv'⟩ := pack_digit L (n - 1)
  have hparity : (n - 1) % 2 = 0 := by omega
  have hhalf : (n - 1) / 2 = n / 2 := by omega
  have htwo : (1 + 1 : (ZMod 2)[X]) = 0 := CharTwo.add_self_eq_zero 1
  rw [poly_eq (pack (L + 1) n), poly_eq (pack (L + 1) (n - 1)), hmod, hdiv, hmod', hdiv', hparity, hhalf, h,
    Nat.cast_zero, Nat.cast_one, ← add_assoc, htwo]

/-! ### Linear maps -/

section Linear
variable {V : Type*} [AddCommGroup V] [Module (ZMod 2) V] {T : Module.End (ZMod 2) V} {v : V} {d chi n : Nat}
  {p : (ZMod 2)[X]}

/-- Where a polynomial of a map vanishes, only remainders modulo it count. -/
theorem Stands.aeval_eq (h : Stands d chi n p) (hchi : aeval T (poly chi) v = 0) :
    aeval T p v = aeval T (poly n) v := by
  obtain ⟨u, hu⟩ := h.dvd
  have hzero : aeval T (poly n - p) v = 0 := by
    rw [hu, mul_comm, map_mul, Module.End.mul_apply, hchi, map_zero]
  rw [map_sub, LinearMap.sub_apply, sub_eq_zero] at hzero
  exact hzero.symm

theorem aeval_poly (n : Nat) (v : V) :
    aeval T (poly n) v = (n % base) • v + aeval T (poly (n / base)) (T v) := by
  have hcomm : T * aeval T (poly (n / base)) = aeval T (poly (n / base)) * T := by
    calc T * aeval T (poly (n / base)) = aeval T (X * poly (n / base)) := by rw [map_mul, aeval_X]
      _ = aeval T (poly (n / base) * X) := by rw [mul_comm]
      _ = aeval T (poly (n / base)) * T := by rw [map_mul, aeval_X]
  rw [poly_eq, map_add, map_mul, aeval_X, map_natCast, LinearMap.add_apply, hcomm, Module.End.mul_apply]
  rfl

end Linear
end BinaryPoly
