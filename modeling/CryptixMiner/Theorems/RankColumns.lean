import CryptixMiner.Pow.Generate

/-! What one column of the elimination does to the matrix: the pivot row is divided and multiples of it are subtracted
    from the others, in the columns after it; all other entries stay. -/

namespace CryptixMiner.Elimination
open Loop

section Entries
variable {α : Type} [Inhabited α] {n : Nat} {mat : Vector (Vector α n) n}

theorem put_entry {j k : Nat} (hj : j < n) (hk : k < n) (x : α) (r c : Nat) :
    ((put mat j k x)[r]!)[c]! = if r = j ∧ c = k then x else (mat[r]!)[c]! := by
  rw [put, getElem!_set! hj]
  by_cases hr : j = r
  · subst hr
    rw [if_pos rfl, getElem!_set! hk]
    by_cases hc : k = c
    · rw [if_pos hc, if_pos ⟨rfl, hc.symm⟩]
    · rw [if_neg hc, if_neg fun h => hc h.2.symm]
  · rw [if_neg hr, if_neg fun h => hr h.1.symm]

theorem divideRow_entry [Div α] {i j : Nat} (hi : i < n) (hj : j < n) (r c : Nat) :
    ((divideRow i j mat)[r]!)[c]! =
      if r = j ∧ i < c ∧ c < n then (mat[r]!)[c]! / (mat[j]!)[i]! else (mat[r]!)[c]! := by
  refine forRange_inv (P := fun p (m : Vector (Vector α n) n) => ∀ r c, (m[r]!)[c]! =
      if r = j ∧ i < c ∧ c < p then (mat[r]!)[c]! / (mat[j]!)[i]! else (mat[r]!)[c]!)
    (by omega) (fun r c => ?_) (fun p m hp hpn ih r c => ?_) r c
  · have hnone : ¬(r = j ∧ i < c ∧ c < i + 1) := by omega
    rw [if_neg hnone]
  · -- Neither the entry that is written nor the pivot was written before.
    have hold : ¬(j = j ∧ i < p ∧ p < p) := by omega
    have hpivot : ¬(j = j ∧ i < i ∧ i < p) := by omega
    rw [put_entry hj hpn, ih j p, ih j i, if_neg hold, if_neg hpivot]
    by_cases hcell : r = j ∧ c = p
    · obtain ⟨rfl, rfl⟩ := hcell
      have hin : r = r ∧ i < c ∧ c < c + 1 := by omega
      rw [if_pos ⟨rfl, rfl⟩, if_pos hin]
    · have hiff : (r = j ∧ i < c ∧ c < p + 1) ↔ (r = j ∧ i < c ∧ c < p) := by omega
      rw [if_neg hcell, ih r c, if_congr hiff rfl rfl]

theorem subtractRow_entry [Sub α] [Mul α] {i j k : Nat} (hi : i < n) (hk : k < n) (hjk : j ≠ k) (r c : Nat) :
    ((subtractRow i j k mat)[r]!)[c]! =
      if r = k ∧ i < c ∧ c < n then (mat[r]!)[c]! - (mat[j]!)[c]! * (mat[k]!)[i]! else (mat[r]!)[c]! := by
  refine forRange_inv (P := fun p (m : Vector (Vector α n) n) => ∀ r c, (m[r]!)[c]! =
      if r = k ∧ i < c ∧ c < p then (mat[r]!)[c]! - (mat[j]!)[c]! * (mat[k]!)[i]! else (mat[r]!)[c]!)
    (by omega) (fun r c => ?_) (fun p m hp hpn ih r c => ?_) r c
  · have hnone : ¬(r = k ∧ i < c ∧ c < i + 1) := by omega
    rw [if_neg hnone]
  · have hold : ¬(k = k ∧ i < p ∧ p < p) := by omega
    have hrow : ¬(j = k ∧ i < p ∧ p < p) := by omega
    have hfactor : ¬(k = k ∧ i < i ∧ i < p) := by omega
    rw [put_entry hk hpn, ih k p, ih j p, ih k i, if_neg hold, if_neg hrow, if_neg hfactor]
    by_cases hcell : r = k ∧ c = p
    · obtain ⟨rfl, rfl⟩ := hcell
      have hin : r = r ∧ i < c ∧ c < c + 1 := by omega
      rw [if_pos ⟨rfl, rfl⟩, if_pos hin]
    · have hiff : (r = k ∧ i < c ∧ c < p + 1) ↔ (r = k ∧ i < c ∧ c < p) := by omega
      rw [if_neg hcell, ih r c, if_congr hiff rfl rfl]

/-- The pivot row and column `i` stay as they are, so each row is reduced by what it was. -/
theorem subtractRows_entry [Sub α] [Mul α] {big : α → Bool} {i j : Nat} (hi : i < n) (r c : Nat) :
    ((subtractRows big i j mat)[r]!)[c]! =
      if r < n ∧ r ≠ j ∧ big (mat[r]!)[i]! = true ∧ i < c ∧ c < n then (mat[r]!)[c]! - (mat[j]!)[c]! * (mat[r]!)[i]!
      else (mat[r]!)[c]! := by
  refine forRange_inv (P := fun k (m : Vector (Vector α n) n) => ∀ r c, (m[r]!)[c]! =
      if r < k ∧ r ≠ j ∧ big (mat[r]!)[i]! = true ∧ i < c ∧ c < n then (mat[r]!)[c]! - (mat[j]!)[c]! * (mat[r]!)[i]!
      else (mat[r]!)[c]!) (Nat.zero_le n) (fun r c => ?_) (fun k m _ hk ih r c => ?_) r c
  · rw [if_neg fun h => Nat.not_lt_zero r h.1]
  · have hki : (m[k]!)[i]! = (mat[k]!)[i]! := by
      rw [ih k i, if_neg fun h => Nat.lt_irrefl k h.1]
    have hnew : (r < k + 1 ∧ r ≠ j ∧ big (mat[r]!)[i]! = true ∧ i < c ∧ c < n) ↔
        (r < k ∧ r ≠ j ∧ big (mat[r]!)[i]! = true ∧ i < c ∧ c < n) ∨
          (r = k ∧ (k ≠ j ∧ big (mat[k]!)[i]! = true) ∧ i < c ∧ c < n) := by
      rw [Nat.lt_succ_iff_lt_or_eq]
      refine ⟨?_, ?_⟩
      · rintro ⟨hlt | rfl, hj, hbig, hc⟩
        · exact .inl ⟨hlt, hj, hbig, hc⟩
        · exact .inr ⟨rfl, ⟨hj, hbig⟩, hc⟩
      · rintro (⟨hlt, h⟩ | ⟨rfl, ⟨hj, hbig⟩, hc⟩)
        · exact ⟨.inl hlt, h⟩
        · exact ⟨.inr rfl, hj, hbig, hc⟩
    rw [hki]
    by_cases hsub : k ≠ j ∧ big (mat[k]!)[i]! = true
    · have hjk : j ≠ k := Ne.symm hsub.1
      have hjrow : ∀ c, (m[j]!)[c]! = (mat[j]!)[c]! := fun c => by
        rw [ih j c, if_neg fun h => h.2.1 rfl]
      have hkrow : ∀ c, (m[k]!)[c]! = (mat[k]!)[c]! := fun c => by
        rw [ih k c, if_neg fun h => Nat.lt_irrefl k h.1]
      rw [if_pos hsub, subtractRow_entry hi hk hjk, hjrow, hki]
      by_cases hcell : r = k ∧ i < c ∧ c < n
      · obtain ⟨rfl, hc⟩ := hcell
        rw [if_pos ⟨rfl, hc⟩, if_pos (hnew.mpr (.inr ⟨rfl, hsub, hc⟩)), hkrow]
      · have hiff := hnew.trans (or_iff_left fun h => hcell ⟨h.1, h.2.2⟩)
        rw [if_neg hcell, ih r c, if_congr hiff rfl rfl]
    · have hiff := hnew.trans (or_iff_left fun h => hsub h.2.1)
      rw [if_neg hsub, ih r c, if_congr hiff rfl rfl]

end Entries

/-! ### One column -/

section Column
variable {α : Type} [Inhabited α] {n : Nat} {big : α → Bool} {i : Nat} {s : Elimination α n}

/-- Row `j` is a pivot in column `i`: the first that is not selected and has a big entry. -/
structure IsPivot (big : α → Bool) (i : Nat) (s : Elimination α n) (j : Nat) : Prop where
  lt : j < n
  free : s.rowSelected[j]! = false
  pivot : big (s.mat[j]!)[i]! = true
  first : ∀ k < j, s.rowSelected[k]! = false → big (s.mat[k]!)[i]! = false

theorem findPivot_cases (big : α → Bool) (i : Nat) (s : Elimination α n) :
    (findPivot big i s = n ∧ ∀ k < n, s.rowSelected[k]! = false → big (s.mat[k]!)[i]! = false) ∨
      IsPivot big i s (findPivot big i s) := by
  have hskip : ∀ k : Nat, (!s.rowSelected[k]! && big (s.mat[k]!)[i]!) = false →
      s.rowSelected[k]! = false → big (s.mat[k]!)[i]! = false := by
    intro k hstop hfree
    rwa [hfree, Bool.not_false, Bool.true_and] at hstop
  obtain ⟨-, hle, hstop, hbefore⟩ :=
    forUntil_index (fun j => !s.rowSelected[j]! && big (s.mat[j]!)[i]!) n 0
  rw [Nat.zero_add] at hle hstop
  rcases Nat.eq_or_lt_of_le hle with heq | hlt
  · exact .inl ⟨heq, fun k hk => hskip k (hbefore k (Nat.zero_le k) (lt_of_lt_of_eq hk heq.symm))⟩
  · have hfound := hstop hlt
    rw [Bool.and_eq_true, Bool.not_eq_true'] at hfound
    exact .inr ⟨hlt, hfound.1, hfound.2, fun k hk => hskip k (hbefore k (Nat.zero_le k) hk)⟩

variable [Sub α] [Mul α] [Div α]

/-- An entry after column `i` was eliminated with the pivot row `j`. -/
def reduced (big : α → Bool) (i j : Nat) (mat : Vector (Vector α n) n) (r c : Nat) : α :=
  if r = j then (mat[j]!)[c]! / (mat[j]!)[i]!
  else if big (mat[r]!)[i]! = true then (mat[r]!)[c]! - (mat[j]!)[c]! / (mat[j]!)[i]! * (mat[r]!)[i]!
  else (mat[r]!)[c]!

theorem column_cases (big : α → Bool) (s : Elimination α n) (hi : i < n) :
    (column big i s = s ∧ ∀ k < n, s.rowSelected[k]! = false → big (s.mat[k]!)[i]! = false) ∨
      ∃ j, IsPivot big i s j ∧ (column big i s).rank = s.rank + 1 ∧
        (∀ k, (column big i s).rowSelected[k]! = if k = j then true else s.rowSelected[k]!) ∧
        ∀ r < n, ∀ c, i < c → c < n → ((column big i s).mat[r]!)[c]! = reduced big i j s.mat r c := by
  rcases findPivot_cases big i s with ⟨heq, hnone⟩ | hpivot
  · refine .inl ⟨?_, hnone⟩
    rw [column, heq]
    exact if_neg fun h => h rfl
  · refine .inr ⟨findPivot big i s, hpivot, ?_⟩
    generalize hj : findPivot big i s = j at hpivot
    have hcolumn : column big i s =
        { mat := subtractRows big i j (divideRow i j s.mat), rank := s.rank + 1,
          rowSelected := s.rowSelected.set! j true } := by
      rw [column, hj]
      exact if_pos hpivot.lt.ne
    rw [hcolumn]
    refine ⟨rfl, fun k => ?_, fun r hr c hic hc => ?_⟩
    · rw [getElem!_set! hpivot.lt]
      exact if_congr eq_comm rfl rfl
    · have hri : ((divideRow i j s.mat)[r]!)[i]! = (s.mat[r]!)[i]! := by
        rw [divideRow_entry hi hpivot.lt, if_neg fun h => Nat.lt_irrefl i h.2.1]
      have hjc : ((divideRow i j s.mat)[j]!)[c]! = (s.mat[j]!)[c]! / (s.mat[j]!)[i]! := by
        rw [divideRow_entry hi hpivot.lt, if_pos ⟨rfl, hic, hc⟩]
      rw [subtractRows_entry hi, hri, hjc, reduced]
      by_cases hrj : r = j
      · subst hrj
        rw [if_neg fun h => h.2.1 rfl, if_pos rfl, hjc]
      · have hrc : ((divideRow i j s.mat)[r]!)[c]! = (s.mat[r]!)[c]! := by
          rw [divideRow_entry hi hpivot.lt, if_neg fun h => hrj h.1]
        have hiff : (r < n ∧ r ≠ j ∧ big (s.mat[r]!)[i]! = true ∧ i < c ∧ c < n) ↔ big (s.mat[r]!)[i]! = true :=
          ⟨fun h => h.2.2.1, fun h => ⟨hr, hrj, h, hic, hc⟩⟩
        rw [if_neg hrj, hrc, if_congr hiff rfl rfl]

theorem columns_succ (big : α → Bool) (i : Nat) (mat : Vector (Vector α n) n) :
    columns big (i + 1) mat = column big i (columns big i mat) := forRange_succ (Nat.zero_le i) _ _

end Column
end CryptixMiner.Elimination
