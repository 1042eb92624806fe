import CryptixMiner.Kernel.OpenClPrimitives
import CryptixMiner.Lib.Keccak
import Mathlib.Tactic.IntervalCases

/-! The kernels' Keccak is Keccak-f[1600]: the parities of the columns are Theta, the walk along the cycle of
    the lanes is Rho and Pi, the rows are Chi. The same holds of the second form of the OpenCL kernel. -/

namespace CryptixMiner
open Words Device Keccak

theorem and_63 (n : Nat) : n &&& 63 = n % 64 := Nat.and_two_pow_sub_one_eq_mod n 6

namespace Device

@[simp] theorem rotl64_eq (value : UInt64) (shift : Nat) : rotl64 value shift = rotl value shift := by
  simp only [rotl64, rotl, and_63]
  rw [rotateLeft_eq_shifts value.toBitVec (by decide)]

end Device

namespace Cuda

/-! ### Theta -/

theorem keccakColumns_eq (st : KeccakState) : keccakColumns st = theta st := by
  refine Vector.ext fun j hj => ?_
  have hx : j % 5 < 5 := Nat.mod_lt j (by decide)
  rw [theta, getElem_ofLanes hj, lane_of_index hj]
  simp only [keccakColumns, rotl64_eq, Vector.getElem_ofFn, Loop.getElem!_eq st hj]
  generalize j % 5 = x at hx
  interval_cases x <;> rfl

/-! ### Rho and Pi -/

/-- Each place of the cycle takes the lane at the place before it, rotated as Rho demands. -/
theorem lanes_table : ∀ k < 24, source KECCAK_PI_LANES[k]! = (if k = 0 then 1 else KECCAK_PI_LANES[k - 1]!) ∧
    offset ((KECCAK_PI_LANES[k]! % 5 + 3 * (KECCAK_PI_LANES[k]! / 5)) % 5) (KECCAK_PI_LANES[k]! % 5) % 64 =
      KECCAK_RHO_PI_ROT[k]! := by
  decide

/-- The cycle goes once through all lanes but the first. -/
theorem lanes_cover : ∀ j < 25, j = 0 ∨ ∃ k < 24, KECCAK_PI_LANES[k]! = j := by decide

theorem lanes_inj : ∀ k < 24, ∀ l < 24, KECCAK_PI_LANES[k]! = KECCAK_PI_LANES[l]! → k = l := by decide

theorem lanes_lt : ∀ k < 24, KECCAK_PI_LANES[k]! < 25 ∧ KECCAK_PI_LANES[k]! ≠ 0 := by decide

theorem keccakLanes_eq (st : KeccakState) : keccakLanes st = pi (rho st) := by
  obtain ⟨hwritten, hrest⟩ := Loop.forRange_carry (fun k x => rotl64 x KECCAK_RHO_PI_ROT[k]!) st
    (fun k => KECCAK_PI_LANES[k]!) st[1]! (m := 24) (fun k hk => (lanes_lt k hk).1) lanes_inj
  refine Vector.ext fun j hj => ?_
  rw [getElem_pi_rho hj, ← Loop.getElem!_eq (keccakLanes st) hj]
  rcases lanes_cover j hj with rfl | ⟨k, hk, rfl⟩
  · refine (hrest 0 fun k hk => (lanes_lt k hk).2).trans ?_
    exact (rotl_zero st[0]!).symm
  · obtain ⟨hsource, hrot⟩ := lanes_table k hk
    refine (hwritten k hk).trans ?_
    rw [rotl64_eq, hsource, ← rotl_mod _ (offset _ _), hrot]
    cases k with
    | zero => rfl
    | succ k => rfl

/-! ### Chi -/

theorem keccakRows_eq (st : KeccakState) : keccakRows st = chi st := by
  have hrows : ∀ j (_ : j < 25), (keccakRows st)[j] = if j / 5 < 5 then (chi st)[j] else st[j] := by
    refine Loop.forRange_inv
      (P := fun i (w : KeccakState) => ∀ j (_ : j < 25), w[j] = if j / 5 < i then (chi st)[j] else st[j])
      (by decide) (fun j _ => by rw [if_neg (Nat.not_lt_zero _)]) fun i w _ hi ih j hj => ?_
    have hold : ∀ k < 5, w[5 * i + k]! = st[5 * i + k]! := fun k hk => by
      have hlt : 5 * i + k < 25 := by omega
      have hrow : ¬(5 * i + k) / 5 < i := by omega
      rw [Loop.getElem!_eq w hlt, ih _ hlt, if_neg hrow, Loop.getElem!_eq st hlt]
    simp only [Loop.getElem_set! hj]
    by_cases hrow : j / 5 = i
    · have hin : j / 5 < i + 1 := by omega
      rw [if_pos hin, getElem_chi hj, hrow, ← Loop.getElem!_eq st hj]
      have h0 := hold 0 (by decide)
      have h1 := hold 1 (by decide)
      have h2 := hold 2 (by decide)
      have h3 := hold 3 (by decide)
      have h4 := hold 4 (by decide)
      rw [Nat.add_zero] at h0
      obtain ⟨r, hr⟩ : ∃ r, j = 5 * i + r := ⟨j % 5, by omega⟩
      have hr5 : r < 5 := by omega
      subst hr
      have hmod : (5 * i + r) % 5 = r := by omega
      rw [hmod, h0, h1, h2, h3, h4]
      interval_cases r <;> simp [Nat.add_comm]
    · have hfirst : 5 * i ≠ j := by omega
      have hne : ∀ k < 5, 5 * i + k ≠ j := by omega
      have hiff : j / 5 < i + 1 ↔ j / 5 < i := by omega
      rw [if_neg (hne 4 (by decide)), if_neg (hne 3 (by decide)), if_neg (hne 2 (by decide)), if_neg (hne 1 (by decide)),
        if_neg hfirst, ih j hj, if_congr hiff rfl rfl]
  refine Vector.ext fun j hj => ?_
  have hrow : j / 5 < 5 := by omega
  rw [hrows j hj, if_pos hrow]

/-! ### The permutation -/

theorem roundConstant_table : ∀ ir < 24, KECCAK_RNDC[ir]! = roundConstant ir := by decide +kernel

/-- The last step of a round, with any table of the round constants. -/
theorem set!_iota (st : KeccakState) {table : Vector UInt64 24} {ir : Nat} (hrc : table[ir]! = roundConstant ir) :
    st.set! 0 (st[0]! ^^^ table[ir]!) = iota st ir := by
  refine Vector.ext fun j hj => ?_
  rw [Loop.getElem_set! hj, iota, getElem_ofLanes hj, lane_of_index hj, hrc]
  by_cases hzero : 0 = j
  · subst hzero
    rfl
  · have hout : ¬(j % 5 = 0 ∧ j / 5 = 0) := by omega
    rw [if_neg hzero, if_neg hout]

theorem keccakF1600_eq (st : KeccakState) : keccakF1600 st = f1600 st := by
  refine Loop.forRange_congr (by decide) fun ir st _ hir => ?_
  rw [keccakColumns_eq, keccakLanes_eq, keccakRows_eq]
  exact set!_iota _ (roundConstant_table ir hir)

end Cuda

namespace OpenCl

theorem keccakLanes_eq (st : KeccakState) : keccakLanes st = pi (rho st) := Cuda.keccakLanes_eq st

theorem keccakFixed_eq (st : KeccakState) : keccakFixed st = pi (rho st) := by
  refine Vector.ext fun j hj => ?_
  rw [getElem_pi_rho hj, ← rotl_mod]
  simp only [keccakFixed, Loop.getElem_set! hj, rotl64_eq]
  interval_cases j
  · exact (rotl_zero st[0]!).symm
  all_goals rfl

theorem keccakUnrolled_eq (b : KeccakState) : keccakUnrolled b = chi b := by
  refine Vector.ext fun j hj => ?_
  rw [getElem_chi hj, ← Loop.getElem!_eq b hj]
  interval_cases j <;> rfl

theorem keccakF1600_eq (s : Switches) (st : KeccakState) : keccakF1600 s st = f1600 st := by
  refine Loop.forRange_congr (by decide) fun ir st _ hir => ?_
  simp only [Cuda.keccakColumns_eq, keccakLanes_eq, Cuda.keccakRows_eq, keccakFixed_eq, keccakUnrolled_eq, ite_self]
  exact Cuda.set!_iota _ (Cuda.roundConstant_table ir hir)

end OpenCl
end CryptixMiner
