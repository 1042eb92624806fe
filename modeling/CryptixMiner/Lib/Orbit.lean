import Mathlib.Dynamics.PeriodicPts.Defs
import Mathlib.SetTheory.Cardinal.Finite
import Mathlib.Data.Fintype.Option
import Mathlib.Data.Int.GCD
import Mathlib.Data.Nat.Prime.Basic

/-! Steps of a finite type that fix one point and run through all the others in one cycle. -/

namespace Orbit
open Function

section Period
variable {V : Type*} {T : V → V} {e : V} {N : Nat}

/-- The period is all of `N` where no prime factor can be taken out of it. -/
theorem minimalPeriod_eq (hN : 0 < N) (hone : T^[N] e = e) (hprime : ∀ p, p.Prime → p ∣ N → T^[N / p] e ≠ e) :
    minimalPeriod T e = N := by
  obtain ⟨c, hc⟩ := IsPeriodicPt.minimalPeriod_dvd (f := T) (x := e) (n := N) hone
  have hcpos : c ≠ 0 := by
    rintro rfl
    omega
  rcases Nat.eq_or_lt_of_le (Nat.one_le_iff_ne_zero.mpr hcpos) with h1 | h1
  · rw [hc, ← h1, Nat.mul_one]
  · obtain ⟨p, hp, d, rfl⟩ := Nat.exists_prime_and_dvd h1.ne'
    have hdiv : N / p = minimalPeriod T e * d := by
      rw [hc, Nat.mul_left_comm, Nat.mul_div_cancel_left _ hp.pos]
    have hdvd : p ∣ N := ⟨minimalPeriod T e * d, by rw [hc, Nat.mul_left_comm]⟩
    have hback : IsPeriodicPt T (N / p) e := by
      rw [hdiv]
      exact (isPeriodicPt_minimalPeriod T e).mul_const d
    exact absurd hback (hprime p hp hdvd)

/-- A period that can be divided into the rounds of `m` steps leaves no point of the cycle out. -/
theorem exists_iterate_mul (hper : T^[N] e = e) (hm : Nat.Coprime m N) (hN : 1 < N) (i j : Nat) :
    ∃ k, T^[m * k] (T^[i] e) = T^[j] e := by
  obtain ⟨u, -, hu⟩ := Nat.exists_mul_mod_eq_one_of_coprime hm hN
  have hmod : ∀ a b, a % N = b % N → T^[a] e = T^[b] e := fun a b h => by
    rw [← IsPeriodicPt.iterate_mod_apply (n := N) hper a, h, IsPeriodicPt.iterate_mod_apply (n := N) hper b]
  refine ⟨u * (j + (N - 1) * i), ?_⟩
  rw [← iterate_add_apply]
  refine hmod _ _ ?_
  have hrounds : m * (u * (j + (N - 1) * i)) % N = (j + (N - 1) * i) % N := by
    rw [← Nat.mul_assoc, Nat.mul_mod, hu, Nat.one_mul, Nat.mod_mod]
  have hback : j + (N - 1) * i + i = j + N * i := by
    obtain ⟨n, rfl⟩ := Nat.exists_eq_succ_of_ne_zero (by omega : N ≠ 0)
    rw [Nat.succ_sub_one, Nat.succ_mul, Nat.add_assoc]
  rw [Nat.add_mod, hrounds, ← Nat.add_mod, hback, Nat.add_mul_mod_self_left]

end Period

section Cycle
variable {V : Type*} [Finite V] [Zero V] {T : V → V} {e : V}

/-- A cycle as long as there are other points passes through each of them. -/
theorem exists_iterate_eq (hinj : Injective T) (hzero : T 0 = 0) (he : e ≠ 0)
    (hper : minimalPeriod T e + 1 = Nat.card V) {s : V} (hs : s ≠ 0) : ∃ i, T^[i] e = s := by
  have hnonzero : ∀ i, T^[i] e ≠ 0 := fun i h => by
    have hfix : T^[i] 0 = 0 := iterate_fixed hzero i
    exact he (hinj.iterate i (h.trans hfix.symm))
  let walk : Option (Fin (minimalPeriod T e)) → V := fun o => o.elim 0 fun i => T^[i] e
  have hwalk : Injective walk := by
    intro a b hab
    cases a with
    | none =>
      cases b with
      | none => rfl
      | some j => exact absurd hab.symm (hnonzero j)
    | some i =>
      cases b with
      | none => exact absurd hab (hnonzero i)
      | some j => exact congrArg some (Fin.ext (iterate_injOn_Iio_minimalPeriod i.isLt j.isLt hab))
  have := Fintype.ofFinite V
  have hcard : Fintype.card (Option (Fin (minimalPeriod T e))) = Fintype.card V := by
    rw [Fintype.card_option, Fintype.card_fin, hper, Nat.card_eq_fintype_card]
  obtain ⟨o, ho⟩ := ((Fintype.bijective_iff_injective_and_card walk).mpr ⟨hwalk, hcard⟩).surjective s
  cases o with
  | none => exact absurd ho.symm hs
  | some i => exact ⟨i, ho⟩

end Cycle
end Orbit
