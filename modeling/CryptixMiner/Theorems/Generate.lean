import CryptixMiner.Theorems.RankCells

/-! `Matrix::generate` ends for every hash but zero. A matrix takes 256 draws, a number prime to the length of the
    cycle on which all states but zero lie, so that the matrices drawn for a hash are in time those of every other
    state, also of one whose matrix is seen to have full rank. The zero hash draws the zero matrix for ever. -/

namespace CryptixMiner.Matrix
open Loop Binary64

/-! ### Draws -/

section ArrayFromFn
variable {σ α : Type} [Inhabited α]

/-- The state that the closure of `array_from_fn` gets for index `i`. -/
def stateAt (cb : Nat → σ → α × σ) (s : σ) : Nat → σ
  | 0 => s
  | i + 1 => (cb i (stateAt cb s i)).2

theorem arrayFromFn_spec (n : Nat) (cb : Nat → σ → α × σ) (s : σ) :
    (∀ i < n, (arrayFromFn n cb s).1[i]! = (cb i (stateAt cb s i)).1) ∧
      (arrayFromFn n cb s).2 = stateAt cb s n := by
  refine forRange_inv (P := fun idx (q : Vector α n × σ) =>
      (∀ i < idx, q.1[i]! = (cb i (stateAt cb s i)).1) ∧ q.2 = stateAt cb s idx) (Nat.zero_le n)
    ⟨fun i hi => absurd hi (Nat.not_lt_zero i), rfl⟩ fun idx q _ hidx ⟨hentries, hstate⟩ => ?_
  refine ⟨fun i hi => ?_, by rw [hstate]; rfl⟩
  rw [getElem!_set! hidx, hstate]
  split
  · next heq => rw [heq]
  · next hne => exact hentries i (by omega)

end ArrayFromFn

section Draw
variable (g : XoShiRo256PlusPlus)

/-- The closure of a row holds the draw for the column before, and the generator after it. -/
theorem stateAt_randEntry (j : Nat) : (stateAt randEntry (0, g) j).2 = g.after ((j + 15) / 16) ∧
    (0 < j → (stateAt randEntry (0, g) j).1 = g.draw ((j - 1) / 16)) := by
  induction j with
  | zero => exact ⟨rfl, fun h => absurd h (Nat.lt_irrefl 0)⟩
  | succ j ih =>
    obtain ⟨hgen, hval⟩ := ih
    rw [stateAt, randEntry]
    by_cases hshift : j % 16 = 0
    · have hnow : (j + 15) / 16 = j / 16 := by omega
      have hnext : (j + 1 + 15) / 16 = j / 16 + 1 := by omega
      simp only [if_pos hshift, hgen, hnow, hnext, XoShiRo256PlusPlus.u64_after, Nat.add_sub_cancel]
      exact ⟨trivial, fun _ => trivial⟩
    · have hnow : (j + 1 + 15) / 16 = (j + 15) / 16 := by omega
      have hlast : (j - 1) / 16 = j / 16 := by omega
      simp only [if_neg hshift, hgen, hval (by omega), hnow, hlast, Nat.add_sub_cancel]
      exact ⟨trivial, fun _ => trivial⟩

theorem nibble_toNat (x : UInt64) {k : Nat} (hk : k < 16) :
    (x >>> UInt64.ofNat (4 * k) &&& 0x0F).toUInt8.toNat = x.toNat / 16 ^ k % 16 := by
  have hpow : 2 ^ (4 * k) = 16 ^ k := by rw [Nat.pow_mul]
  have hmod : (UInt64.ofNat (4 * k)).toNat % 64 = 4 * k := by
    rw [UInt64.toNat_ofNat']
    omega
  have hmask : (0x0F : UInt64).toNat = 2 ^ 4 - 1 := rfl
  rw [UInt64.toNat_toUInt8, UInt64.toNat_and, UInt64.toNat_shiftRight, hmod, Nat.shiftRight_eq_div_pow, hpow, hmask,
    Nat.and_two_pow_sub_one_eq_mod]
  omega

theorem randEntry_stateAt (j : Nat) : (randEntry j (stateAt randEntry (0, g) j)).1.toNat =
    (g.draw (j / 16)).toNat / 16 ^ (j % 16) % 16 := by
  obtain ⟨hgen, hval⟩ := stateAt_randEntry g j
  have hk : j % 16 < 16 := Nat.mod_lt j (by decide)
  rw [randEntry]
  by_cases hshift : j % 16 = 0
  · have hnow : (j + 15) / 16 = j / 16 := by omega
    simp only [if_pos hshift, hgen, hnow, XoShiRo256PlusPlus.u64_after]
    exact nibble_toNat _ hk
  · have hlast : (j - 1) / 16 = j / 16 := by omega
    simp only [if_neg hshift, hval (by omega), hlast]
    exact nibble_toNat _ hk

theorem randRow_entry {c : Nat} (hc : c < 64) :
    ((randRow g).1[c]!).toNat = (g.draw (c / 16)).toNat / 16 ^ (c % 16) % 16 := by
  rw [randRow, (arrayFromFn_spec 64 randEntry (0, g)).1 c hc]
  exact randEntry_stateAt g c

theorem randRow_generator : (randRow g).2 = g.after 4 := by
  rw [randRow, (arrayFromFn_spec 64 randEntry (0, g)).2]
  exact (stateAt_randEntry g 64).1

theorem stateAt_randRow (r : Nat) : stateAt (fun _ => randRow) g r = g.after (4 * r) := by
  induction r with
  | zero => rfl
  | succ r ih => rw [stateAt, ih, randRow_generator, ← XoShiRo256PlusPlus.after_add, Nat.mul_succ]

theorem randMatrix_entry {r c : Nat} (hr : r < 64) (hc : c < 64) :
    (((randMatrixNoRankCheck g).1.rows[r]!)[c]!).toNat = (g.draw (4 * r + c / 16)).toNat / 16 ^ (c % 16) % 16 := by
  rw [randMatrixNoRankCheck, (arrayFromFn_spec 64 (fun _ => randRow) g).1 r hr, stateAt_randRow, randRow_entry _ hc,
    XoShiRo256PlusPlus.draw_after]

/-- A matrix takes 256 draws. -/
theorem randMatrix_generator : (randMatrixNoRankCheck g).2 = g.after 256 := by
  rw [randMatrixNoRankCheck, (arrayFromFn_spec 64 (fun _ => randRow) g).2]
  exact stateAt_randRow g 64

end Draw

theorem randMatrix_iterate (g : XoShiRo256PlusPlus) (n : Nat) :
    (fun g => (randMatrixNoRankCheck g).2)^[n] g = g.after (256 * n) := by
  induction n with
  | zero => rfl
  | succ n ih =>
    rw [Function.iterate_succ_apply', ih, randMatrix_generator, ← XoShiRo256PlusPlus.after_add, Nat.mul_succ]

theorem drawn_eq (hash : Hash) (n : Nat) :
    drawn hash n = (randMatrixNoRankCheck ((XoShiRo256PlusPlus.new hash).after (256 * n))).1 := by
  rw [drawn, randMatrix_iterate]

/-- The loop ends just when a matrix of full rank is drawn. -/
theorem generateLoop_eq_some_iff (g : XoShiRo256PlusPlus) :
    (∃ fuel m, generateLoop fuel g = some m) ↔
      ∃ n, (randMatrixNoRankCheck ((fun g => (randMatrixNoRankCheck g).2)^[n] g)).1.computeRank = 64 := by
  constructor
  · rintro ⟨fuel, m, hm⟩
    induction fuel generalizing g with
    | zero =>
      rw [generateLoop] at hm
      exact absurd hm.symm (Option.some_ne_none m)
    | succ fuel ih =>
      rw [generateLoop] at hm
      by_cases hrank : (randMatrixNoRankCheck g).1.computeRank = 64
      · exact ⟨0, hrank⟩
      · obtain ⟨n, hn⟩ := ih _ (by rwa [if_neg hrank] at hm)
        exact ⟨n + 1, hn⟩
  · rintro ⟨n, hn⟩
    induction n generalizing g with
    | zero =>
      rw [Function.iterate_zero_apply] at hn
      exact ⟨1, (randMatrixNoRankCheck g).1, by rw [generateLoop, if_pos hn]⟩
    | succ n ih =>
      by_cases hrank : (randMatrixNoRankCheck g).1.computeRank = 64
      · exact ⟨1, (randMatrixNoRankCheck g).1, by rw [generateLoop, if_pos hrank]⟩
      · obtain ⟨fuel, m, hm⟩ := ih (randMatrixNoRankCheck g).2 hn
        refine ⟨fuel + 1, m, ?_⟩
        rw [generateLoop, if_neg hrank]
        exact hm

/-! ### The zero hash -/

/-- A matrix without a big entry has no pivot in any column. -/
theorem computeRank_eq_zero {α : Type} [Inhabited α] [Sub α] [Mul α] [Div α] {big : α → Bool} {n : Nat}
    {mat : Vector (Vector α n) n} (h : ∀ r < n, ∀ c < n, big (mat[r]!)[c]! = false) :
    CryptixMiner.computeRank big mat = 0 := by
  have hstay : ∀ i ≤ n, Elimination.columns big i mat = Elimination.start mat := by
    intro i
    induction i with
    | zero => exact fun _ => forRange_self _ _
    | succ i ih =>
      intro hi
      rw [Elimination.columns_succ, ih (Nat.le_of_succ_le hi)]
      rcases Elimination.column_cases big (Elimination.start mat) hi with ⟨hsame, -⟩ | ⟨j, hp, -⟩
      · exact hsame
      · exact absurd hp.pivot (Bool.eq_false_iff.mp (h j hp.lt i hi))
  rw [CryptixMiner.computeRank, hstay n (Nat.le_refl n)]
  rfl

theorem convertToFloat_entry (m : Matrix) {r c : Nat} (hr : r < 64) (hc : c < 64) :
    (m.convertToFloat[r]!)[c]! = ((m.rows[r]!)[c]!).toFloat := by
  rw [convertToFloat, getElem!_eq _ hr, Vector.getElem_map, getElem!_eq _ hc, Vector.getElem_map, getElem!_eq _ hr,
    getElem!_eq _ hc]

theorem computeRank_zero_hash (n : Nat) : (drawn ⟨Vector.replicate 4 0⟩ n).computeRank = 0 := by
  refine computeRank_eq_zero fun r hr c hc => ?_
  have hbyte : (((drawn ⟨Vector.replicate 4 0⟩ n).rows[r]!)[c]!).toNat = 0 := by
    rw [drawn_eq, randMatrix_entry _ hr hc, XoShiRo256PlusPlus.draw_after, XoShiRo256PlusPlus.draw_zero]
    exact (congrArg (· % 16) (Nat.zero_div _)).trans (Nat.zero_mod 16)
  have htracks := tracks_ofByte ((drawn ⟨Vector.replicate 4 0⟩ n).rows[r]!)[c]!
  have hcell : Cell.ofByte 0 = .zero := rfl
  rw [hbyte, hcell] at htracks
  rw [convertToFloat_entry _ hr hc]
  exact RankCells.big_eq_above htracks Cell.noConfusion

/-! ### A state whose matrix has full rank -/

theorem follows_start (g : XoShiRo256PlusPlus) :
    RankCells.Follows 0 (Elimination.start (randMatrixNoRankCheck g).1.convertToFloat) (RankCells.matrixOf 64 g) := by
  refine ⟨rfl, fun r hr => ?_, fun d row hd hrow e c he hc => ?_⟩
  · rw [Elimination.start, getElem!_eq _ hr, Vector.getElem_replicate, decide_eq_false (Nat.not_lt_zero r)]
  · rw [Nat.zero_add] at hd
    rw [RankCells.getElem?_matrixOf g hd] at hrow
    obtain rfl := Option.some.inj hrow
    rw [RankCells.getElem?_rowOf _ he, XoShiRo256PlusPlus.draw_after, ← randMatrix_entry g hd he] at hc
    obtain rfl := Option.some.inj hc
    have hentry : ((Elimination.start (randMatrixNoRankCheck g).1.convertToFloat).mat[0 + d]!)[0 + e]! =
        (((randMatrixNoRankCheck g).1.rows[d]!)[e]!).toFloat := by
      rw [Nat.zero_add, Nat.zero_add]
      exact convertToFloat_entry _ hd he
    have htracks := tracks_ofByte ((randMatrixNoRankCheck g).1.rows[d]!)[e]!
    rw [← hentry] at htracks
    exact htracks

theorem computeRank_of_elim {g : XoShiRo256PlusPlus} (h : RankCells.elim 64 (RankCells.matrixOf 64 g) = true) :
    (randMatrixNoRankCheck g).1.computeRank = 64 :=
  RankCells.rank_of_elim (Nat.zero_add 64) (follows_start g) h

/-- The elimination of the matrix that is drawn from the state `(8, 0, 0, 0)`, evaluated. -/
theorem elim_eight : RankCells.elim 64 (RankCells.matrixOf 64 ⟨8, 0, 0, 0⟩) = true := by decide +kernel

/-! ### Every other hash -/

theorem exists_computeRank_eq {hash : Hash} (h : hash ≠ ⟨Vector.replicate 4 0⟩) :
    ∃ n, (drawn hash n).computeRank = 64 := by
  have hquad : (XoShiRo256PlusPlus.new hash).quad ≠ 0 := fun h0 =>
    h ((XoShiRo256PlusPlus.quad_new_eq_zero_iff hash).mp h0)
  have hcoprime : Nat.Coprime 256 (2 ^ 256 - 1) := by decide +kernel
  have height : (⟨8, 0, 0, 0⟩ : Xoshiro256.Quad) ≠ 0 := by decide
  obtain ⟨k, hk⟩ := Xoshiro256.exists_iterate_mul hcoprime hquad height
  have hafter : (XoShiRo256PlusPlus.new hash).after (256 * k) = ⟨8, 0, 0, 0⟩ :=
    XoShiRo256PlusPlus.quad_injective ((XoShiRo256PlusPlus.quad_after _ _).trans hk)
  refine ⟨k, ?_⟩
  rw [drawn_eq, hafter]
  exact computeRank_of_elim elim_eight

theorem exists_computeRank_eq_iff (hash : Hash) :
    (∃ n, (drawn hash n).computeRank = 64) ↔ hash ≠ ⟨Vector.replicate 4 0⟩ := by
  refine ⟨?_, exists_computeRank_eq⟩
  rintro ⟨n, hn⟩ rfl
  rw [computeRank_zero_hash] at hn
  exact absurd hn (by decide)

/-- `generate` ends, and draws a matrix of full rank, for every hash but zero and for no other. -/
theorem generate_ends_iff (hash : Hash) :
    ((∃ fuel m, generate fuel hash = some m) ∧ ∃ n, (drawn hash n).computeRank = 64) ↔
      hash ≠ ⟨Vector.replicate 4 0⟩ := by
  rw [← exists_computeRank_eq_iff]
  exact ⟨fun h => h.2, fun h => ⟨(generateLoop_eq_some_iff _).mpr h, h⟩⟩

/-- The header hash of zeros, as a pool can send it. -/
theorem not_generate_ends_zero :
    (∀ fuel, generate fuel ⟨Vector.replicate 4 0⟩ = none) ∧
      ¬∃ n, (drawn ⟨Vector.replicate 4 0⟩ n).computeRank = 64 := by
  have hnone : ¬∃ n, (drawn ⟨Vector.replicate 4 0⟩ n).computeRank = 64 := fun h =>
    (exists_computeRank_eq_iff _).mp h rfl
  refine ⟨fun fuel => ?_, hnone⟩
  rw [Option.eq_none_iff_forall_ne_some]
  exact fun m hm => hnone ((generateLoop_eq_some_iff _).mp ⟨fuel, m, hm⟩)

end CryptixMiner.Matrix
