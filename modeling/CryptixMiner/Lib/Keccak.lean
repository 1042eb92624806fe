import CryptixMiner.Lib.Loop
import CryptixMiner.Lib.Words

/-! The permutation Keccak-f[1600] in the words of its standard: the lanes of a state form a 5 by 5 square,
    and the offsets and round constants are computed, not listed. -/

namespace Keccak

/-- The 25 lanes; lane `(x, y)` has index `x + 5 * y`. -/
abbrev State := Vector UInt64 25

/-- Coordinates are taken modulo 5. -/
def lane (A : State) (x y : Nat) : UInt64 := A[x % 5 + 5 * (y % 5)]!

def ofLanes (f : Nat → Nat → UInt64) : State := Vector.ofFn fun i => f (i.val % 5) (i.val / 5)

def rotl (a : UInt64) (n : Nat) : UInt64 := UInt64.ofBitVec (a.toBitVec.rotateLeft n)

/-! ### The step mappings -/

/-- Xors into each lane the parities of two neighbouring columns. -/
def theta (A : State) : State :=
  let C (x : Nat) : UInt64 := lane A x 0 ^^^ lane A x 1 ^^^ lane A x 2 ^^^ lane A x 3 ^^^ lane A x 4
  ofLanes fun x y => lane A x y ^^^ (C (x + 4) ^^^ rotl (C (x + 1)) 1)

/-- The walk through the lanes other than `(0, 0)`. -/
def walk : Nat → Nat × Nat
  | 0 => (1, 0)
  | t + 1 => ((walk t).2, (2 * (walk t).1 + 3 * (walk t).2) % 5)

/-- The lane that the walk meets at `t` is rotated by the `t`-th triangular number. -/
def offset (x y : Nat) : Nat :=
  match (List.range 24).find? fun t => walk t = (x, y) with
  | some t => (t + 1) * (t + 2) / 2
  | none => 0

def rho (A : State) : State := ofLanes fun x y => rotl (lane A x y) (offset x y)

def pi (A : State) : State := ofLanes fun x y => lane A (x + 3 * y) x

def chi (A : State) : State := ofLanes fun x y => lane A x y ^^^ (~~~ lane A (x + 1) y &&& lane A (x + 2) y)

/-- The shift register whose lowest bit is `rc t`. -/
def register : Nat → Nat
  | 0 => 1
  | t + 1 => if (2 * register t).testBit 8 then 2 * register t ^^^ 0x171 else 2 * register t

def rc (t : Nat) : Bool := (register t).testBit 0

/-- Bit `2 ^ j - 1` of the round constant is `rc (j + 7 * ir)`. -/
def roundConstant (ir : Nat) : UInt64 :=
  Loop.forRange 0 7 (fun j c => if rc (j + 7 * ir) then c ||| ((1 : UInt64) <<< UInt64.ofNat (2 ^ j - 1)) else c) 0

def iota (A : State) (ir : Nat) : State :=
  ofLanes fun x y => if x = 0 ∧ y = 0 then lane A x y ^^^ roundConstant ir else lane A x y

def round (A : State) (ir : Nat) : State := iota (chi (pi (rho (theta A)))) ir

def f1600 (A : State) : State := Loop.forRange 0 24 (fun ir A => round A ir) A

/-! ### Lanes by their index -/

section
variable {A : State} {f : Nat → Nat → UInt64} {j : Nat}

theorem getElem_ofLanes (hj : j < 25) : (ofLanes f)[j] = f (j % 5) (j / 5) := by
  rw [ofLanes, Vector.getElem_ofFn]

theorem lane_of_index (hj : j < 25) : lane A (j % 5) (j / 5) = A[j] := by
  have hindex : j % 5 % 5 + 5 * (j / 5 % 5) = j := by omega
  rw [lane, hindex, Loop.getElem!_eq A hj]

/-- The lane whose rotation comes to place `j`. -/
def source (j : Nat) : Nat := (j % 5 + 3 * (j / 5)) % 5 + 5 * (j % 5)

theorem getElem_pi_rho (hj : j < 25) :
    (pi (rho A))[j] = rotl A[source j]! (offset ((j % 5 + 3 * (j / 5)) % 5) (j % 5)) := by
  have hlt : source j < 25 := by unfold source; omega
  have hx : source j % 5 = (j % 5 + 3 * (j / 5)) % 5 := by unfold source; omega
  have hy : source j / 5 = j % 5 := by unfold source; omega
  have hindex : (j % 5 + 3 * (j / 5)) % 5 + 5 * (j % 5 % 5) = source j := by unfold source; omega
  rw [pi, getElem_ofLanes hj, lane, hindex, Loop.getElem!_eq _ hlt, rho, getElem_ofLanes hlt, lane_of_index hlt, hx, hy,
    Loop.getElem!_eq _ hlt]

theorem getElem_chi (hj : j < 25) : (chi A)[j] =
    A[j] ^^^ (~~~A[(j % 5 + 1) % 5 + 5 * (j / 5)]! &&& A[(j % 5 + 2) % 5 + 5 * (j / 5)]!) := by
  have hrow : j / 5 % 5 = j / 5 := Nat.mod_eq_of_lt (by omega)
  rw [chi, getElem_ofLanes hj, lane_of_index hj, lane, lane, hrow]

theorem rotl_zero (a : UInt64) : rotl a 0 = a := by
  rw [rotl, BitVec.rotateLeft_def, Nat.zero_mod, Nat.sub_zero, BitVec.ushiftRight_eq_zero (Nat.le_refl 64)]
  simp

theorem rotl_mod (a : UInt64) (n : Nat) : rotl a (n % 64) = rotl a n := by
  rw [rotl, rotl, BitVec.rotateLeft_mod_eq_rotateLeft]

end
end Keccak
