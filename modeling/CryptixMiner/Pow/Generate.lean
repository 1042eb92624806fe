import CryptixMiner.Pow.HeavyHash
import CryptixMiner.Pow.Xoshiro

/-! How `src/pow/heavy_hash.rs` finds the matrix of a hash: matrices are drawn from the generator that the hash seeds
    until one has full rank. The rank is computed by elimination, which is stated here for any numbers and any
    dimension; `Matrix::compute_rank` runs it on 64 rows of `f64`. -/

namespace CryptixMiner

/-! ### Rank by elimination -/

/-- What `compute_rank` changes. -/
structure Elimination (α : Type) (n : Nat) where
  mat : Vector (Vector α n) n
  rank : Nat
  rowSelected : Vector Bool n

namespace Elimination
section Steps
variable {α : Type} [Inhabited α] {n : Nat}

/-- `mat[r][c] = x`. -/
def put (mat : Vector (Vector α n) n) (r c : Nat) (x : α) : Vector (Vector α n) n := mat.set! r (mat[r]!.set! c x)

/-- The row where the search in column `i` stops: `n` if there is no pivot. -/
def findPivot (big : α → Bool) (i : Nat) (s : Elimination α n) : Nat :=
  Loop.forUntil (fun j => !s.rowSelected[j]! && big (s.mat[j]!)[i]!) (fun _ j => j + 1) n 0 0

def divideRow [Div α] (i j : Nat) (mat : Vector (Vector α n) n) : Vector (Vector α n) n :=
  Loop.forRange (i + 1) n (fun p mat => put mat j p ((mat[j]!)[p]! / (mat[j]!)[i]!)) mat

def subtractRow [Sub α] [Mul α] (i j k : Nat) (mat : Vector (Vector α n) n) : Vector (Vector α n) n :=
  Loop.forRange (i + 1) n (fun p mat => put mat k p ((mat[k]!)[p]! - (mat[j]!)[p]! * (mat[k]!)[i]!)) mat

def subtractRows [Sub α] [Mul α] (big : α → Bool) (i j : Nat) (mat : Vector (Vector α n) n) :
    Vector (Vector α n) n :=
  Loop.forRange 0 n (fun k mat => if k ≠ j ∧ big (mat[k]!)[i]! = true then subtractRow i j k mat else mat) mat

/-- The body of the loop over the columns. -/
def column [Sub α] [Mul α] [Div α] (big : α → Bool) (i : Nat) (s : Elimination α n) : Elimination α n :=
  let j := findPivot big i s
  if j ≠ n then
    { mat := subtractRows big i j (divideRow i j s.mat), rank := s.rank + 1, rowSelected := s.rowSelected.set! j true }
  else s

def start (mat : Vector (Vector α n) n) : Elimination α n := ⟨mat, 0, Vector.replicate n false⟩

/-- The elimination after the first `i` columns. -/
def columns [Sub α] [Mul α] [Div α] (big : α → Bool) (i : Nat) (mat : Vector (Vector α n) n) : Elimination α n :=
  Loop.forRange 0 i (column big) (start mat)

end Steps
end Elimination

/-- The rank of a square matrix, where numbers that are not `big` count as zero. -/
def computeRank {α : Type} [Inhabited α] [Sub α] [Mul α] [Div α] (big : α → Bool) {n : Nat}
    (mat : Vector (Vector α n) n) : Nat := (Elimination.columns big n mat).rank

namespace Matrix

def EPS : Float := 1e-9

def convertToFloat (m : Matrix) : Vector (Vector Float 64) 64 := m.rows.map (·.map UInt8.toFloat)

def computeRank (m : Matrix) : Nat := CryptixMiner.computeRank (fun x => decide (EPS < x.abs)) m.convertToFloat

/-! ### Drawing a matrix -/

section ArrayFromFn
variable {σ α : Type}

/-- `array_from_fn`, whose closure changes a state. -/
def arrayFromFn [Inhabited α] (n : Nat) (cb : Nat → σ → α × σ) (s : σ) : Vector α n × σ :=
  Loop.forRange 0 n (fun idx q => (q.1.set! idx (cb idx q.2).1, (cb idx q.2).2)) (Vector.replicate n default, s)

end ArrayFromFn

/-- The entry in column `j` of a row. The state is `val` with the generator. -/
def randEntry (j : Nat) (s : UInt64 × XoShiRo256PlusPlus) : UInt8 × UInt64 × XoShiRo256PlusPlus :=
  let shift := j % 16
  let s := if shift = 0 then s.2.u64 else s
  ((s.1 >>> UInt64.ofNat (4 * shift) &&& 0x0F).toUInt8, s)

def randRow (generator : XoShiRo256PlusPlus) : Bytes 64 × XoShiRo256PlusPlus :=
  let row := arrayFromFn 64 randEntry (0, generator)
  (row.1, row.2.2)

def randMatrixNoRankCheck (generator : XoShiRo256PlusPlus) : Matrix × XoShiRo256PlusPlus :=
  let rows := arrayFromFn 64 (fun _ => randRow) generator
  (⟨rows.1⟩, rows.2)

/-- The loop of `generate`, for at most `fuel` rounds. -/
def generateLoop : (fuel : Nat) → XoShiRo256PlusPlus → Option Matrix
  | 0, _ => none
  | fuel + 1, generator =>
    let mat := randMatrixNoRankCheck generator
    if mat.1.computeRank = 64 then some mat.1 else generateLoop fuel mat.2

def generate (fuel : Nat) (hash : Hash) : Option Matrix := generateLoop fuel (XoShiRo256PlusPlus.new hash)

/-- The matrix number `n` that is drawn. -/
def drawn (hash : Hash) (n : Nat) : Matrix :=
  (randMatrixNoRankCheck ((fun g => (randMatrixNoRankCheck g).2)^[n] (XoShiRo256PlusPlus.new hash))).1

end Matrix
end CryptixMiner
