import Mathlib.LinearAlgebra.FiniteDimensional.Lemmas
import Mathlib.LinearAlgebra.Matrix.Rank

/-! A pivot of a matrix: its row, taken from all rows so that its column becomes zero, takes exactly one from the
    rank. The pivot row becomes zero itself and stays in the matrix. -/

namespace RankOne
open Matrix Submodule

variable {K : Type*} {m n : Type*}

/-- The matrix of the entries that a function gives. -/
def table (k : ℕ) (entry : Fin k → Fin k → K) : Matrix (Fin k) (Fin k) K := Matrix.of entry

@[simp] theorem table_apply (k : ℕ) (entry : Fin k → Fin k → K) (r c : Fin k) : table k entry r c = entry r c := rfl

variable [Field K]

/-- Each row of `M` less the multiple of row `j` that clears its entry in column `i`. -/
def clear (M : Matrix m n K) (j : m) (i : n) : Matrix m n K :=
  Matrix.of fun r c => M r c - M j c / M j i * M r i

variable {M : Matrix m n K} {j : m} {i : n}

theorem clear_row (r : m) : (clear M j i).row r = M.row r - (M r i / M j i) • M.row j := by
  funext c
  simp only [clear, Matrix.row, Matrix.of_apply, Pi.sub_apply, Pi.smul_apply, smul_eq_mul]
  ring

theorem clear_column (h : M j i ≠ 0) (r : m) : clear M j i r i = 0 := by
  rw [clear, Matrix.of_apply, div_self h, one_mul, sub_self]

/-- The rows of a matrix are spanned by the pivot row and the cleared rows. -/
theorem span_row_eq (M : Matrix m n K) (j : m) (i : n) :
    span K (Set.range M.row) = span K (Set.range (clear M j i).row) ⊔ span K {M.row j} := by
  have hrow : ∀ r, M.row r ∈ span K (Set.range M.row) := fun r => subset_span (Set.mem_range_self r)
  refine le_antisymm (span_le.mpr ?_) (sup_le (span_le.mpr ?_) (span_le.mpr ?_))
  · rintro _ ⟨r, rfl⟩
    have hsplit : M.row r = (clear M j i).row r + (M r i / M j i) • M.row j := by
      rw [clear_row, sub_add_cancel]
    rw [hsplit]
    exact add_mem_sup (subset_span (Set.mem_range_self r)) (smul_mem _ _ (mem_span_singleton_self _))
  · rintro _ ⟨r, rfl⟩
    rw [clear_row]
    exact sub_mem (hrow r) (smul_mem _ _ (hrow j))
  · rintro _ rfl
    exact hrow j

/-- What the cleared rows span is zero in the column of the pivot. -/
theorem apply_eq_zero_of_mem (h : M j i ≠ 0) {v : n → K} (hv : v ∈ span K (Set.range (clear M j i).row)) : v i = 0 := by
  induction hv using span_induction with
  | mem v hv =>
    obtain ⟨r, rfl⟩ := hv
    exact clear_column h r
  | zero => rfl
  | add v w _ _ hv hw => rw [Pi.add_apply, hv, hw, add_zero]
  | smul a v _ hv => rw [Pi.smul_apply, hv, smul_zero]

theorem rank_eq [Finite m] [Fintype n] (h : M j i ≠ 0) : M.rank = (clear M j i).rank + 1 := by
  have hout : M.row j ∉ span K (Set.range (clear M j i).row) := fun hmem => h (apply_eq_zero_of_mem h hmem)
  rw [rank_eq_finrank_span_row, rank_eq_finrank_span_row, span_row_eq M j i, finrank_sup_span_singleton hout]

theorem table_eq_clear {k : ℕ} {entry : Fin k → Fin k → K} {M : Matrix (Fin k) (Fin k) K} {j i : Fin k}
    (h : ∀ r c, entry r c = M r c - M j c / M j i * M r i) : table k entry = clear M j i := by
  ext r c
  exact h r c

theorem rank_table_eq_zero {k : ℕ} {entry : Fin k → Fin k → K} (h : ∀ r c, entry r c = 0) :
    (table k entry).rank = 0 := by
  have hzero : table k entry = 0 := by
    ext r c
    exact h r c
  rw [hzero, Matrix.rank_zero]

end RankOne
