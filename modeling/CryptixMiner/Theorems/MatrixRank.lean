import CryptixMiner.Lib.RankOne
import CryptixMiner.Theorems.RankColumns

/-! Over a field, with the numbers other than zero as the big ones, the elimination computes the rank. Selected rows and
    finished columns no longer matter: each column takes from the rank of the rest what it adds to the count. -/

namespace CryptixMiner.Elimination
open Loop RankOne

section Nonzero
variable {K : Type} [Zero K] [DecidableEq K] {x : K}

/-- The numbers that the elimination reads as other than zero. -/
def nonzero (x : K) : Bool := decide (x ≠ 0)

theorem nonzero_eq_true : nonzero x = true ↔ x ≠ 0 := decide_eq_true_iff

theorem nonzero_eq_false : nonzero x = false ↔ x = 0 := by
  rw [← Bool.not_eq_true, nonzero_eq_true, not_not]

end Nonzero

section Field
variable {K : Type} [Field K] [Inhabited K] {n i : Nat} {s : Elimination K n}

/-- A stored matrix. -/
def stored (mat : Vector (Vector K n) n) := table n fun r c => mat[r.val][c.val]

/-- Entry `(r, c)` of what is left to eliminate before column `i`; selected rows and finished columns are zero there. -/
def restEntry (s : Elimination K n) (i r c : Nat) : K :=
  if s.rowSelected[r]! = false ∧ i ≤ c then (s.mat[r]!)[c]! else 0

def rest (s : Elimination K n) (i : Nat) := table n fun r c => restEntry s i r c

theorem restEntry_of_free {r c : Nat} (hr : s.rowSelected[r]! = false) (hc : i ≤ c) :
    restEntry s i r c = (s.mat[r]!)[c]! := if_pos ⟨hr, hc⟩

theorem restEntry_of_selected {r : Nat} (hr : s.rowSelected[r]! = true) (i c : Nat) : restEntry s i r c = 0 :=
  if_neg fun h => Bool.false_ne_true (h.1.symm.trans hr)

theorem restEntry_of_lt {c : Nat} (r : Nat) (hc : c < i) : restEntry s i r c = 0 :=
  if_neg fun h => Nat.not_lt.mpr h.2 hc

variable [DecidableEq K]

/-- Without a pivot the column is zero already. -/
theorem rest_succ_of_not_pivot (hnone : ∀ k < n, s.rowSelected[k]! = false → nonzero (s.mat[k]!)[i]! = false) :
    rest s (i + 1) = rest s i := by
  refine congrArg (table n) (funext fun r => funext fun c => ?_)
  rcases Nat.lt_trichotomy c.val i with hlt | heq | hgt
  · rw [restEntry_of_lt _ (Nat.lt_succ_of_lt hlt), restEntry_of_lt _ hlt]
  · rw [restEntry_of_lt _ (heq ▸ Nat.lt_succ_self i), heq, restEntry]
    split
    · next h => exact (nonzero_eq_false.mp (hnone r r.isLt h.1)).symm
    · rfl
  · have hiff : (s.rowSelected[r.val]! = false ∧ i + 1 ≤ c.val) ↔ (s.rowSelected[r.val]! = false ∧ i ≤ c.val) := by
      rw [Nat.succ_le_iff, and_congr_right_iff]
      exact fun _ => ⟨fun _ => hgt.le, fun _ => hgt⟩
    rw [restEntry, restEntry, if_congr hiff rfl rfl]

/-- With a pivot, what is left is cleared by the pivot row, and that row with it. -/
theorem restEntry_column {t : Elimination K n} {j : Nat} (hp : IsPivot nonzero i s j)
    (hsel : ∀ k, t.rowSelected[k]! = if k = j then true else s.rowSelected[k]!)
    (hent : ∀ r < n, ∀ c, i < c → c < n → (t.mat[r]!)[c]! = reduced nonzero i j s.mat r c) {r c : Nat} (hr : r < n)
    (hc : c < n) :
    restEntry t (i + 1) r c = restEntry s i r c - restEntry s i j c / restEntry s i j i * restEntry s i r i := by
  have hpivot : restEntry s i j i ≠ 0 := by
    rw [restEntry_of_free hp.free (Nat.le_refl i)]
    exact nonzero_eq_true.mp hp.pivot
  have htr := hsel r
  by_cases hrj : r = j
  · subst hrj
    rw [if_pos rfl] at htr
    rw [restEntry_of_selected htr, div_mul_cancel₀ _ hpivot, sub_self]
  · rw [if_neg hrj] at htr
    cases hfree : s.rowSelected[r]! with
    | true => rw [restEntry_of_selected (htr.trans hfree), restEntry_of_selected hfree, restEntry_of_selected hfree,
        mul_zero, sub_zero]
    | false =>
      rcases Nat.lt_trichotomy c i with hlt | rfl | hgt
      · rw [restEntry_of_lt _ (Nat.lt_succ_of_lt hlt), restEntry_of_lt _ hlt, restEntry_of_lt _ hlt, zero_div, zero_mul,
          sub_zero]
      · rw [restEntry_of_lt _ (Nat.lt_succ_self c), div_self hpivot, one_mul, sub_self]
      · rw [restEntry_of_free (htr.trans hfree) hgt, hent r hr c hgt hc, restEntry_of_free hfree hgt.le,
          restEntry_of_free hp.free hgt.le, restEntry_of_free hp.free (Nat.le_refl i),
          restEntry_of_free hfree (Nat.le_refl i), reduced, if_neg hrj]
        split
        · rfl
        · next hsmall =>
          rw [nonzero_eq_false.mp (Bool.eq_false_iff.mpr hsmall), mul_zero, sub_zero]

/-- What is counted and what is left add up to the same rank before and after a column. -/
theorem rank_column (hi : i < n) :
    (column nonzero i s).rank + (rest (column nonzero i s) (i + 1)).rank = s.rank + (rest s i).rank := by
  rcases column_cases nonzero s hi with ⟨hsame, hnone⟩ | ⟨j, hp, hrank, hsel, hent⟩
  · rw [hsame, rest_succ_of_not_pivot hnone]
  · have hclear : rest (column nonzero i s) (i + 1) = clear (rest s i) ⟨j, hp.lt⟩ ⟨i, hi⟩ :=
      table_eq_clear fun r c => restEntry_column hp hsel hent r.isLt c.isLt
    have hpivot : rest s i ⟨j, hp.lt⟩ ⟨i, hi⟩ ≠ 0 := by
      rw [rest, table_apply, restEntry_of_free hp.free (Nat.le_refl i)]
      exact nonzero_eq_true.mp hp.pivot
    rw [hclear, hrank, rank_eq hpivot]
    omega

theorem rank_columns (mat : Vector (Vector K n) n) (hi : i ≤ n) :
    (columns nonzero i mat).rank + (rest (columns nonzero i mat) i).rank = (stored mat).rank := by
  induction i with
  | zero =>
    have hstart : rest (columns nonzero 0 mat) 0 = stored mat := by
      refine congrArg (table n) (funext fun r => funext fun c => ?_)
      have hfree : (start mat).rowSelected[r.val]! = false := by
        rw [start, getElem!_eq _ r.isLt, Vector.getElem_replicate]
      rw [columns, forRange_self, restEntry_of_free hfree (Nat.zero_le _), start, getElem!_eq mat r.isLt,
        getElem!_eq _ c.isLt]
    rw [hstart, columns, forRange_self, start, Nat.zero_add]
  | succ i ih =>
    rw [columns_succ, rank_column hi]
    exact ih (Nat.le_of_succ_le hi)

theorem computeRank_nonzero (mat : Vector (Vector K n) n) : computeRank nonzero mat = (stored mat).rank := by
  have hend : (rest (columns nonzero n mat) n).rank = 0 := rank_table_eq_zero fun r c => restEntry_of_lt _ c.isLt
  rw [computeRank, ← rank_columns mat (Nat.le_refl n), hend, Nat.add_zero]

end Field

/-- Over the rationals, at every dimension, `compute_rank` returns the rank. -/
theorem computeRank_eq_rank {n : Nat} (mat : Vector (Vector ℚ n) n) :
    computeRank (fun x => decide (x ≠ 0)) mat = (stored mat).rank := computeRank_nonzero mat

end CryptixMiner.Elimination
