import CryptixMiner.Kernel.OpenClPrimitives
import CryptixMiner.Lib.Blake3
import Mathlib.Tactic.IntervalCases

/-! The rounds of the kernels' BLAKE3 are those of the standard, and a message of 32 bytes is one block of one
    chunk, which is the root. -/

namespace CryptixMiner
open Words Device

namespace Device

theorem rotr32_eq_rotr (value : UInt32) (shift : Nat) : rotr32 value shift = Blake3.rotr value shift := rotr32_eq value shift

end Device

namespace Cuda

/-! ### Tables -/

theorem rootFraction_eq (n whole : Nat) (fraction : UInt32)
    (hle : (whole * 2 ^ 32 + fraction.toNat) * (whole * 2 ^ 32 + fraction.toNat) ≤ n * 2 ^ 64)
    (hlt : n * 2 ^ 64 < (whole * 2 ^ 32 + fraction.toNat + 1) * (whole * 2 ^ 32 + fraction.toNat + 1)) :
    Blake3.rootFraction n = fraction := by
  rw [Blake3.rootFraction, ← Nat.eq_sqrt.mpr ⟨hle, hlt⟩, ← UInt32.toNat_inj, UInt32.toNat_ofNat']
  have := fraction.toNat_lt
  omega

/-- The table holds the fractions; the whole parts are 1, 1, 2, 2, 3, 3, 4, 4. -/
theorem BLAKE3_IV_eq : Blake3.IV = BLAKE3_IV := by
  refine Vector.ext fun i hi => ?_
  rw [Blake3.IV, Vector.getElem_ofFn]
  have htable : ∀ k < 8, let root := (k / 2 + 1) * 2 ^ 32 + BLAKE3_IV[k]!.toNat
      root * root ≤ [2, 3, 5, 7, 11, 13, 17, 19].getD k 0 * 2 ^ 64 ∧
        [2, 3, 5, 7, 11, 13, 17, 19].getD k 0 * 2 ^ 64 < (root + 1) * (root + 1) := by decide
  rw [← Loop.getElem!_eq BLAKE3_IV hi]
  exact rootFraction_eq _ (i / 2 + 1) _ (htable i hi).1 (htable i hi).2

theorem blake3Permute_eq (m : Vector UInt32 16) : blake3Permute m = Blake3.permute m := by
  refine Vector.ext fun i hi => ?_
  rw [blake3Permute, Blake3.permute, Vector.getElem_ofFn, Vector.getElem_ofFn]
  interval_cases i <;> rfl

/-! ### Rounds -/

theorem getElem!_blake3G (v : Vector UInt32 16) {a b c d : Nat} (mx my : UInt32) (hne : [a, b, c, d].Nodup)
    (ha : a < 16) (hb : b < 16) (hc : c < 16) (hd : d < 16) (k : Nat) :
    (blake3G v a b c d mx my)[k]! =
      let q := (Blake3.Quarter.mk v[a]! v[b]! v[c]! v[d]!).g mx my
      if a = k then q.a else if b = k then q.b else if c = k then q.c else if d = k then q.d else v[k]! := by
  obtain ⟨⟨hab, hac, had⟩, ⟨hbc, hbd⟩, hcd⟩ :
      (a ≠ b ∧ a ≠ c ∧ a ≠ d) ∧ (b ≠ c ∧ b ≠ d) ∧ c ≠ d := by simpa using hne
  simp only [blake3G, Loop.getElem!_set! ha, Loop.getElem!_set! hb, Loop.getElem!_set! hc, Loop.getElem!_set! hd,
    rotr32_eq_rotr, if_pos, if_neg hab, if_neg hac, if_neg had, if_neg hbc, if_neg hbd, if_neg hcd, if_neg hab.symm,
    if_neg hac.symm, if_neg had.symm, if_neg hbc.symm, if_neg hbd.symm, if_neg hcd.symm, Blake3.Quarter.g,
    Blake3.Quarter.half]
  by_cases hak : a = k
  · subst hak
    simp [hab.symm, hac.symm, had.symm]
  · by_cases hbk : b = k
    · subst hbk
      simp [hab]
    · by_cases hck : c = k
      · subst hck
        simp [hac, hbc]
      · by_cases hdk : d = k
        · subst hdk
          simp [had, hbd, hcd]
        · simp [hak, hbk, hck, hdk]

/-- The place of the word of quarter `i` in row `r`. -/
def place (slant i r : Nat) : Nat := 4 * r + (i + r * slant) % 4

section Places
variable {slant i j r t : Nat}

theorem place_lt (hr : r < 4) : place slant i r < 16 := by
  unfold place
  omega

theorem place_inj (hi : i < 4) (hj : j < 4) (h : place slant i r = place slant j t) : i = j ∧ r = t := by
  unfold place at h
  have hr : r = t := by omega
  subst hr
  generalize r * slant = x at h
  omega

theorem place_of_lt {k : Nat} (slant : Nat) : place slant ((k % 4 + 3 * (k / 4) * slant) % 4) (k / 4) = k := by
  have hthree : 3 * (k / 4) * slant = 3 * (k / 4 * slant) := Nat.mul_assoc _ _ _
  rw [place, hthree]
  generalize k / 4 * slant = x
  omega

theorem quarter_eq (v : Vector UInt32 16) (slant i : Nat) (hi : i < 4) : Blake3.quarter v slant i =
    ⟨v[place slant i 0]!, v[place slant i 1]!, v[place slant i 2]!, v[place slant i 3]!⟩ := by
  simp [Blake3.quarter, place, Nat.mod_eq_of_lt hi]

theorem blake3G_place (v : Vector UInt32 16) (mx my : UInt32) (hi : i < 4) (hj : j < 4) (hr : r < 4) :
    (blake3G v (place slant i 0) (place slant i 1) (place slant i 2) (place slant i 3) mx my)[place slant j r]! =
      if i = j then ((Blake3.quarter v slant i).g mx my).row r else v[place slant j r]! := by
  have hne {r t : Nat} (hrt : r ≠ t) : place slant i r ≠ place slant i t := fun h => hrt (place_inj hi hi h).2
  have hnodup : [place slant i 0, place slant i 1, place slant i 2, place slant i 3].Nodup := by
    simp [hne]
  rw [getElem!_blake3G v mx my hnodup (place_lt (by decide)) (place_lt (by decide)) (place_lt (by decide))
    (place_lt (by decide)), ← quarter_eq v slant i hi]
  by_cases hij : i = j
  · subst hij
    interval_cases r <;> simp [hne, Blake3.Quarter.row]
  · have hother {t : Nat} : place slant i t ≠ place slant j r := fun h => hij (place_inj hi hj h).1
    simp [hother, hij]

end Places

/-- One quarter after the other is all quarters at once. -/
theorem mixQuarters_eq (slant : Nat) (v m : Vector UInt32 16) :
    Loop.forRange 0 4 (fun i v => blake3G v (place slant i 0) (place slant i 1) (place slant i 2) (place slant i 3)
      m[8 * slant + 2 * i]! m[8 * slant + 2 * i + 1]!) v = Blake3.mixQuarters slant m v := by
  have hrun : ∀ i < 4, ∀ r < 4, (Loop.forRange 0 4 (fun i v => blake3G v (place slant i 0) (place slant i 1)
      (place slant i 2) (place slant i 3) m[8 * slant + 2 * i]! m[8 * slant + 2 * i + 1]!) v)[place slant i r]! =
        if i < 4 then ((Blake3.quarter v slant i).g m[8 * slant + 2 * i]! m[8 * slant + 2 * i + 1]!).row r
        else v[place slant i r]! := by
    refine Loop.forRange_inv (P := fun n (w : Vector UInt32 16) => ∀ i < 4, ∀ r < 4, w[place slant i r]! =
        if i < n then ((Blake3.quarter v slant i).g m[8 * slant + 2 * i]! m[8 * slant + 2 * i + 1]!).row r
        else v[place slant i r]!) (by decide) (fun _ _ _ _ => rfl) fun n w _ hn ih i hi r hr => ?_
    -- Quarter `n` is still as it was.
    have hquarter : Blake3.quarter w slant n = Blake3.quarter v slant n := by
      have hold {t : Nat} (ht : t < 4) : w[place slant n t]! = v[place slant n t]! := by
        rw [ih n hn t ht, if_neg (Nat.lt_irrefl n)]
      rw [quarter_eq w slant n hn, quarter_eq v slant n hn, hold (by decide), hold (by decide), hold (by decide),
        hold (by decide)]
    rw [blake3G_place w _ _ hn hi hr, hquarter]
    by_cases hni : n = i
    · subst hni
      rw [if_pos rfl, if_pos (Nat.lt_succ_self n)]
    · have hiff : i < n + 1 ↔ i < n := by omega
      rw [if_neg hni, ih i hi r hr, if_congr hiff rfl rfl]
  refine Vector.ext fun k hk => ?_
  have hplace := place_of_lt (k := k) slant
  have hi : (k % 4 + 3 * (k / 4) * slant) % 4 < 4 := Nat.mod_lt _ (by decide)
  have hword := hrun _ hi (k / 4) (by omega)
  rw [hplace, if_pos hi, Loop.getElem!_eq _ hk] at hword
  rw [hword, Blake3.mixQuarters, Vector.getElem_ofFn]

theorem blake3Round_eq (v m : Vector UInt32 16) : blake3Round v m = Blake3.round m v := by
  have hfour (f : Nat → Vector UInt32 16 → Vector UInt32 16) (w : Vector UInt32 16) :
      Loop.forRange 0 4 f w = f 3 (f 2 (f 1 (f 0 w))) := rfl
  rw [Blake3.round, ← mixQuarters_eq, ← mixQuarters_eq, hfour, hfour]
  rfl

/-- Permuting the block between the rounds is the schedule. -/
theorem rounds_eq (v m : Vector UInt32 16) :
    (Loop.forRange 0 7 (fun round (s : Vector UInt32 16 × Vector UInt32 16) =>
      (blake3Round s.1 s.2, if round + 1 < 7 then blake3Permute s.2 else s.2)) (v, m)).1 =
        Loop.forRange 0 7 (fun r v => Blake3.round (Blake3.schedule m r) v) v := by
  refine (Loop.forRange_rel (R := fun r (s : Vector UInt32 16 × Vector UInt32 16) w =>
    s.1 = w ∧ (r < 7 → s.2 = Blake3.schedule m r)) (by decide) ⟨rfl, fun _ => rfl⟩ ?_).1
  rintro r ⟨_, block⟩ w - hr ⟨rfl, hblock⟩
  simp only at hblock ⊢
  rw [hblock hr, blake3Round_eq]
  refine ⟨rfl, fun hr' => ?_⟩
  rw [if_pos hr', blake3Permute_eq]
  rfl

end Cuda
end CryptixMiner
