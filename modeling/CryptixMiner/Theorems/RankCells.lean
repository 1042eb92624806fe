import CryptixMiner.Lib.Binary64Cells
import CryptixMiner.Lib.Xoshiro256
import CryptixMiner.Theorems.MatrixSeed
import CryptixMiner.Theorems.RankColumns

/-! The elimination on lists of binary64 cells, evaluated head first. It follows only the rows below the pivots, which
    it takes in order, and where it gets through all columns the elimination of `compute_rank` counts as many. -/

namespace CryptixMiner.RankCells
open Binary64 Binary64.Cell Eager Xoshiro256

noncomputable section Evaluation

/-- A list whose head is computed. -/
def scons (x : Cell) (l : List Cell) : List Cell :=
  Cell.rec (motive := fun _ => List Cell) (.bad :: l) (.zero :: l) (fun neg e m => .num neg e m :: l) x

def divRow (d : Cell) (row : List Cell) : List Cell :=
  List.rec (motive := fun _ => List Cell) [] (fun a _ next => scons (div a d) next) row

def subRow (c : Cell) (piv row : List Cell) : List Cell :=
  List.rec (motive := fun _ => List Cell → List Cell) (fun _ => [])
    (fun b _ next row => List.rec (motive := fun _ => List Cell) []
      (fun a row _ => scons (sub a (mul b c)) (next row)) row) piv row

/-- A row without its entry in the pivot column, reduced where that entry is big. -/
def updRow (piv row : List Cell) : List Cell :=
  List.rec (motive := fun _ => List Cell) []
    (fun c row _ => Bool.rec (motive := fun _ => List Cell) row (subRow c piv row)
      (above 1505 4835703278458517 c)) row

def updRows (piv : List Cell) (rows : List (List Cell)) : List (List Cell) :=
  List.rec (motive := fun _ => List (List Cell)) [] (fun row _ next => updRow piv row :: next) rows

/-- Whether the first row has a pivot in each of `n` columns. -/
def elim : Nat → List (List Cell) → Bool
  | n + 1, (.num neg e m :: row) :: rows =>
    bif above 1505 4835703278458517 (.num neg e m) then elim n (updRows (divRow (.num neg e m) row) rows) else false
  | 0, _ => true
  | _, _ => false

end Evaluation

/-! ### Soundness -/

/-- The cells of a row track the first `k` numbers of `f`. -/
def TracksRow (k : Nat) (row : List Cell) (f : Nat → Float) : Prop :=
  ∀ e c, e < k → row[e]? = some c → Tracks c (f e)

section Rows
variable {k : Nat} {c d : Cell} {x y : Float} {piv row : List Cell} {f g : Nat → Float}

@[simp] theorem scons_eq (c : Cell) (l : List Cell) : scons c l = c :: l := by
  cases c <;> rfl

theorem TracksRow.head (h : TracksRow (k + 1) (c :: row) f) : Tracks c (f 0) := h 0 c (Nat.succ_pos k) rfl

theorem TracksRow.tail (h : TracksRow (k + 1) (c :: row) f) : TracksRow k row fun e => f (e + 1) :=
  fun e a he ha => h (e + 1) a (Nat.succ_lt_succ he) ha

theorem TracksRow.cons (hc : Tracks c (f 0)) (h : TracksRow k row fun e => f (e + 1)) :
    TracksRow (k + 1) (c :: row) f := by
  intro e a he ha
  cases e with
  | zero =>
    obtain rfl : c = a := Option.some.inj ha
    exact hc
  | succ e => exact h e a (Nat.lt_of_succ_lt_succ he) ha

theorem TracksRow.zero : TracksRow 0 row f := fun _ _ he => absurd he (Nat.not_lt_zero _)

theorem TracksRow.nil : TracksRow k [] f := fun _ _ _ h => absurd h (by simp)

theorem tracks_divRow (hd : Tracks d y) (h : TracksRow k row f) : TracksRow k (divRow d row) fun e => f e / y := by
  induction row generalizing k f with
  | nil => exact .nil
  | cons a row ih =>
    cases k with
    | zero => exact .zero
    | succ k =>
      have hstep : divRow d (a :: row) = scons (div a d) (divRow d row) := rfl
      rw [hstep, scons_eq]
      exact .cons (tracks_div h.head hd) (ih h.tail)

theorem tracks_subRow (hc : Tracks c x) (hp : TracksRow k piv g) (h : TracksRow k row f) :
    TracksRow k (subRow c piv row) fun e => f e - g e * x := by
  induction row generalizing k piv f g with
  | nil =>
    cases piv <;> exact .nil
  | cons a row ih =>
    cases piv with
    | nil => exact .nil
    | cons b piv =>
      cases k with
      | zero => exact .zero
      | succ k =>
        have hstep : subRow c (b :: piv) (a :: row) = scons (sub a (mul b c)) (subRow c piv row) := rfl
        rw [hstep, scons_eq]
        exact .cons (tracks_sub h.head (tracks_mul hp.head hc)) (ih hp.tail h.tail)

/-- Nothing is known of a row from which multiples by an unknown number are subtracted. -/
theorem tracks_subRow_bad (f : Nat → Float) : TracksRow k (subRow .bad piv row) f := by
  have hbad : ∀ a b, sub a (mul b .bad) = .bad := by
    intro a b
    cases a <;> cases b <;> rfl
  induction row generalizing k piv f with
  | nil =>
    cases piv <;> exact .nil
  | cons a row ih =>
    cases piv with
    | nil => exact .nil
    | cons b piv =>
      cases k with
      | zero => exact .zero
      | succ k =>
        have hstep : subRow .bad (b :: piv) (a :: row) = scons (sub a (mul b .bad)) (subRow .bad piv row) := rfl
        rw [hstep, scons_eq, hbad]
        exact .cons (.bad _) (ih _)

/-- The numbers that `compute_rank` reads as other than zero. -/
def big (x : Float) : Bool := decide (Matrix.EPS < x.abs)

theorem unpack_EPS : Matrix.EPS.toModel.unpack =
    .finite .positive 4835703278458517 ((1505 : Nat) - 1587) (by decide) := by
  have hbits : Matrix.EPS.toModel.toBits = 0x3e112e0be826d695 := by decide +kernel
  have hmodel : Matrix.EPS.toModel = Float.Model.ofBits 0x3e112e0be826d695 := by
    rw [← hbits]
    rfl
  rw [hmodel]
  rfl

theorem big_eq_above (h : Tracks c x) (hc : c ≠ .bad) : big x = above 1505 4835703278458517 c := by
  rw [big, Bool.eq_iff_iff, decide_eq_true_iff]
  exact lt_abs_iff unpack_EPS h hc

theorem tracks_updRow (hp : TracksRow k piv g) (h : TracksRow (k + 1) row f) :
    TracksRow k (updRow piv row) fun e => if big (f 0) = true then f (e + 1) - g e * f 0 else f (e + 1) := by
  cases row with
  | nil => exact .nil
  | cons c row =>
    by_cases hc : c = .bad
    · subst hc
      exact tracks_subRow_bad _
    · have hstep : updRow piv (c :: row) =
          Bool.rec (motive := fun _ => List Cell) row (subRow c piv row) (above 1505 4835703278458517 c) := rfl
      rw [hstep, big_eq_above h.head hc]
      cases above 1505 4835703278458517 c with
      | true => exact tracks_subRow h.head hp h.tail
      | false => exact h.tail

theorem updRows_eq (piv : List Cell) (rows : List (List Cell)) : updRows piv rows = rows.map (updRow piv) := by
  induction rows with
  | nil => rfl
  | cons row rows ih =>
    have hstep : updRows piv (row :: rows) = updRow piv row :: updRows piv rows := rfl
    rw [hstep, ih, List.map_cons]

end Rows

section Run
open CryptixMiner.Elimination
variable {n : Nat}

/-- The state before column `i`, where the first `i` rows were the pivots so far, and what the cells say of the rest. -/
structure Follows (i : Nat) (s : Elimination Float n) (rows : List (List Cell)) : Prop where
  rank : s.rank = i
  selected : ∀ r < n, s.rowSelected[r]! = decide (r < i)
  rows : ∀ d row, i + d < n → rows[d]? = some row → TracksRow (n - i) row fun e => (s.mat[i + d]!)[i + e]!

theorem Follows.pivot {i : Nat} {s : Elimination Float n} {neg : Bool} {e m : Nat} {row : List Cell}
    {rows : List (List Cell)} (hi : i < n) (h : Follows i s ((.num neg e m :: row) :: rows))
    (habove : above 1505 4835703278458517 (.num neg e m) = true) :
    Follows (i + 1) (column big i s) (updRows (divRow (.num neg e m) row) rows) := by
  have hsize : n - i = n - (i + 1) + 1 := by omega
  have hfirst := h.rows 0 _ hi rfl
  rw [hsize] at hfirst
  have hbig : big (s.mat[i]!)[i]! = true := by
    exact (big_eq_above hfirst.head Cell.noConfusion).trans habove
  have hfree : s.rowSelected[i]! = false := by
    rw [h.selected i hi, decide_eq_false (Nat.lt_irrefl i)]
  rcases column_cases big s hi with ⟨-, hnone⟩ | ⟨j, hp, hrank, hsel, hent⟩
  · exact absurd hbig (Bool.eq_false_iff.mp (hnone i hi hfree))
  · have hji : j = i := by
      have hj := hp.free
      rw [h.selected j hp.lt, decide_eq_false_iff_not] at hj
      rcases Nat.lt_trichotomy j i with hlt | heq | hgt
      · exact absurd hlt hj
      · exact heq
      · exact absurd hbig (Bool.eq_false_iff.mp (hp.first i hgt hfree))
    subst hji
    refine ⟨by rw [hrank, h.rank], fun r hr => ?_, fun d row' hd hrow' => ?_⟩
    · rw [hsel, h.selected r hr]
      split
      · next heq => rw [heq, decide_eq_true (Nat.lt_succ_self j)]
      · next hne =>
        rw [decide_eq_decide]
        omega
    · rw [updRows_eq, List.getElem?_map, Option.map_eq_some_iff] at hrow'
      obtain ⟨old, hold, rfl⟩ := hrow'
      have hshift : ∀ d, j + (d + 1) = j + 1 + d := fun d => by omega
      have hbelow := h.rows (d + 1) old (by omega) hold
      rw [hsize] at hbelow
      have htracks := tracks_updRow (tracks_divRow hfirst.head hfirst.tail) hbelow
      intro e c he hc
      have hcell := htracks e c he hc
      have hrj : j + 1 + d ≠ j := by omega
      have hje : j < j + 1 + e := by omega
      have hentry := hent _ hd _ hje (by omega)
      rw [reduced, if_neg hrj] at hentry
      simp only [Nat.add_zero, hshift d, hshift e] at hcell
      rw [← hentry] at hcell
      exact hcell

theorem rank_of_elim {k i : Nat} {s : Elimination Float n} {rows : List (List Cell)} (hk : i + k = n)
    (h : Follows i s rows) (helim : elim k rows = true) : (Loop.forRange i n (column big) s).rank = n := by
  induction k generalizing i s rows with
  | zero =>
    obtain rfl : i = n := hk
    rw [Loop.forRange_self, h.rank]
  | succ k ih =>
    match rows, helim, h with
    | (.num neg e m :: row) :: rows, helim, h =>
      rw [elim] at helim
      cases habove : above 1505 4835703278458517 (.num neg e m) with
      | false =>
        rw [habove] at helim
        exact absurd helim Bool.false_ne_true
      | true =>
        rw [habove] at helim
        have hi : i < n := by omega
        rw [Loop.forRange_eq_body hi]
        exact ih (by omega) (h.pivot hi habove) helim

end Run

/-! ### The cells of a drawn matrix -/

def drawNat (s0 s3 : Nat) : Nat :=
  force ((s0 + s3) % 2 ^ 64) fun x => (s0 + ((x <<< 23 % 2 ^ 64) ||| (x >>> 41))) % 2 ^ 64

noncomputable def cells : Nat → Nat → List Cell → List Cell
  | 0, _, tail => tail
  | k + 1, v, tail => force (v / 16) fun w => scons (ofByte (v % 16)) (cells k w tail)

noncomputable def rowCells (s0 s3 t0 t3 u0 u3 v0 v3 : Nat) : List Cell :=
  force (drawNat s0 s3) fun a => force (drawNat t0 t3) fun b => force (drawNat u0 u3) fun c =>
  force (drawNat v0 v3) fun d => cells 16 a (cells 16 b (cells 16 c (cells 16 d [])))

noncomputable def matrixCells : Nat → Nat → Nat → Nat → Nat → List (List Cell)
  | 0, _, _, _, _ => []
  | n + 1, s0, s1, s2, s3 =>
    nextNat s0 s1 s2 s3 fun t0 t1 t2 t3 => nextNat t0 t1 t2 t3 fun u0 u1 u2 u3 =>
    nextNat u0 u1 u2 u3 fun v0 v1 v2 v3 => nextNat v0 v1 v2 v3 fun w0 w1 w2 w3 =>
    rowCells s0 s3 t0 t3 u0 u3 v0 v3 :: matrixCells n w0 w1 w2 w3

theorem toNat_draw (g : XoShiRo256PlusPlus) : g.u64.1.toNat = drawNat g.s0.toNat g.s3.toNat := by
  have hrot : ∀ x : UInt64, (rotateLeft64 x 23).toNat = (x.toNat <<< 23 % 2 ^ 64) ||| (x.toNat >>> 41) := by
    intro x
    have hsplit : rotateLeft64 x 23 = (x <<< 23) ||| (x >>> 41) := by
      refine UInt64.toBitVec_inj.mp ?_
      simp only [rotateLeft64, BitVec.rotateLeft_def, UInt64.toBitVec_or, UInt64.toBitVec_shiftLeft,
        UInt64.toBitVec_shiftRight]
      rfl
    rw [hsplit, UInt64.toNat_or, UInt64.toNat_shiftLeft, UInt64.toNat_shiftRight]
    rfl
  rw [drawNat, force_eq, XoShiRo256PlusPlus.u64, UInt64.toNat_add, hrot, UInt64.toNat_add]

theorem getElem?_cells (tail : List Cell) (k v e : Nat) :
    (cells k v tail)[e]? = if e < k then some (ofByte (v / 16 ^ e % 16)) else tail[e - k]? := by
  induction k generalizing v e with
  | zero => rfl
  | succ k ih =>
    rw [cells, force_eq, scons_eq]
    cases e with
    | zero => rw [if_pos (Nat.succ_pos k), Nat.pow_zero, Nat.div_one, List.getElem?_cons_zero]
    | succ e =>
      rw [List.getElem?_cons_succ, ih, Nat.div_div_eq_div_mul, ← Nat.pow_succ', Nat.add_sub_add_right]
      exact if_congr Nat.succ_lt_succ_iff.symm rfl rfl

theorem nextNat_u64 {α : Type} (g : XoShiRo256PlusPlus) (k : Nat → Nat → Nat → Nat → α) :
    nextNat g.s0.toNat g.s1.toNat g.s2.toNat g.s3.toNat k =
      k g.u64.2.s0.toNat g.u64.2.s1.toNat g.u64.2.s2.toNat g.u64.2.s3.toNat := by
  have h := nextNat_toNat g.quad k
  rw [← XoShiRo256PlusPlus.quad_u64] at h
  exact h

/-- The cells of the row that the next four draws give. -/
noncomputable def rowOf (g : XoShiRo256PlusPlus) : List Cell :=
  rowCells g.s0.toNat g.s3.toNat (g.after 1).s0.toNat (g.after 1).s3.toNat (g.after 2).s0.toNat (g.after 2).s3.toNat
    (g.after 3).s0.toNat (g.after 3).s3.toNat

/-- The cells of `n` rows. -/
noncomputable def matrixOf (n : Nat) (g : XoShiRo256PlusPlus) : List (List Cell) :=
  matrixCells n g.s0.toNat g.s1.toNat g.s2.toNat g.s3.toNat

theorem getElem?_rowOf (g : XoShiRo256PlusPlus) {e : Nat} (he : e < 64) :
    (rowOf g)[e]? = some (ofByte ((g.draw (e / 16)).toNat / 16 ^ (e % 16) % 16)) := by
  have hdraw : ∀ n, (g.draw n).toNat = drawNat (g.after n).s0.toNat (g.after n).s3.toNat := fun n => toNat_draw _
  have h0 := hdraw 0
  rw [XoShiRo256PlusPlus.after_zero] at h0
  simp only [rowOf, rowCells, force_eq, getElem?_cells, ← h0, ← hdraw]
  have hquarter : e / 16 = 0 ∨ e / 16 = 1 ∨ e / 16 = 2 ∨ e / 16 = 3 := by omega
  rcases hquarter with hq | hq | hq | hq
  · have hlt : e < 16 := by omega
    have hmod : e % 16 = e := by omega
    rw [if_pos hlt, hq, hmod]
  · have h16 : ¬e < 16 := by omega
    have hlt : e - 16 < 16 := by omega
    have hmod : e % 16 = e - 16 := by omega
    rw [if_neg h16, if_pos hlt, hq, hmod]
  · have h16 : ¬e < 16 := by omega
    have h32 : ¬e - 16 < 16 := by omega
    have hlt : e - 16 - 16 < 16 := by omega
    have hmod : e % 16 = e - 16 - 16 := by omega
    rw [if_neg h16, if_neg h32, if_pos hlt, hq, hmod]
  · have h16 : ¬e < 16 := by omega
    have h32 : ¬e - 16 < 16 := by omega
    have h48 : ¬e - 16 - 16 < 16 := by omega
    have hlt : e - 16 - 16 - 16 < 16 := by omega
    have hmod : e % 16 = e - 16 - 16 - 16 := by omega
    rw [if_neg h16, if_neg h32, if_neg h48, if_pos hlt, hq, hmod]

theorem matrixOf_succ (n : Nat) (g : XoShiRo256PlusPlus) :
    matrixOf (n + 1) g = rowOf g :: matrixOf n (g.after 4) := by
  rw [matrixOf, matrixCells, nextNat_u64, nextNat_u64, nextNat_u64, nextNat_u64]
  rfl

theorem getElem?_matrixOf {n d : Nat} (g : XoShiRo256PlusPlus) (hd : d < n) :
    (matrixOf n g)[d]? = some (rowOf (g.after (4 * d))) := by
  induction n generalizing d g with
  | zero => exact absurd hd (Nat.not_lt_zero d)
  | succ n ih =>
    rw [matrixOf_succ]
    cases d with
    | zero => rfl
    | succ d =>
      rw [List.getElem?_cons_succ, ih _ (Nat.lt_of_succ_lt_succ hd), ← XoShiRo256PlusPlus.after_add, Nat.mul_succ,
        Nat.add_comm 4]

end CryptixMiner.RankCells
