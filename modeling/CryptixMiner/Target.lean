import CryptixMiner.Lib.Limbs
import CryptixMiner.Machine

/-! The 256-bit numbers of `src/target.rs`, and the target that the bits of a header stand for. -/

namespace CryptixMiner
open Words

/-- Four 64-bit words, least significant first. -/
structure Uint256 where
  words : Vector UInt64 4
deriving DecidableEq, Repr

abbrev Hash := Uint256

namespace Uint256

def fromLeBytes (bytes : Bytes 32) : Uint256 := ⟨Vector.ofFn fun i => load64Le bytes (8 * i)⟩

def toLeBytes (x : Uint256) : Bytes 32 := Vector.ofFn fun k => leByte (x.words[k.val / 8]).toBitVec (k.val % 8)

@[simp] theorem load64Le_toLeBytes (x : Uint256) {i : Nat} (hi : i < 4) :
    load64Le x.toLeBytes (8 * i) = x.words[i] := by
  have hbytes : ∀ k < 8, x.toLeBytes[8 * i + k]! = leByte (x.words[i]).toBitVec k := fun k hk => by
    have hdiv : (8 * i + k) / 8 = i := by omega
    have hmod : (8 * i + k) % 8 = k := by omega
    have hlt : 8 * i + k < 32 := by omega
    rw [Loop.getElem!_eq _ hlt, toLeBytes, Vector.getElem_ofFn]
    simp only [hdiv, hmod]
  unfold load64Le
  rw [ofLeBytes_congr hbytes, ofLeBytes_leByte (by decide)]

@[simp] theorem fromLeBytes_toLeBytes (x : Uint256) : fromLeBytes x.toLeBytes = x := by
  obtain ⟨words⟩ := x
  refine congrArg Uint256.mk (Vector.ext fun i hi => ?_)
  rw [Vector.getElem_ofFn, load64Le_toLeBytes _ hi]

@[simp] theorem toLeBytes_fromLeBytes (bytes : Bytes 32) : (fromLeBytes bytes).toLeBytes = bytes := by
  refine Vector.ext fun k hk => ?_
  have hlt : k % 8 < 8 := Nat.mod_lt _ (by decide)
  have hadd : 8 * (k / 8) + k % 8 = k := Nat.div_add_mod k 8
  have hbyte : leByte (ofLeBytes 64 (fun j => bytes[8 * (k / 8) + j]!) 8) (k % 8) = bytes[8 * (k / 8) + k % 8]! :=
    leByte_ofLeBytes hlt (by decide)
  simp only [toLeBytes, fromLeBytes, Vector.getElem_ofFn, load64Le]
  rw [hbyte, hadd, Loop.getElem!_eq _ hk]

/-- Four words stored one after the other are the bytes of a number. -/
theorem store64Le_four (w0 w1 w2 w3 : UInt64) (out : Bytes 32) :
    store64Le w3 (store64Le w2 (store64Le w1 (store64Le w0 out 0) 8) 16) 24 =
      (⟨#v[w0, w1, w2, w3]⟩ : Uint256).toLeBytes := by
  rw [← toLeBytes_fromLeBytes (store64Le w3 _ 24)]
  refine congrArg (fun words => toLeBytes ⟨words⟩) (Vector.ext fun i hi => ?_)
  rw [Vector.getElem_ofFn]
  have hcase : i = 0 ∨ i = 1 ∨ i = 2 ∨ i = 3 := by omega
  rcases hcase with rfl | rfl | rfl | rfl <;>
    simp [load64Le_store64Le, load64Le_store64Le_of_disjoint]

/-! ### Numbers -/

def toNat (x : Uint256) : Nat := Limbs.value x.words.toList

def fromU64 (init : UInt64) : Uint256 := ⟨(Vector.replicate 4 0).set! 0 init⟩

/-- `ret[k] += x`, which panics when it overflows in a build that `checks` arithmetic. -/
def addTo (checks : Bool) (ret : Vector UInt64 4) (k : Nat) (x : UInt64) : Option (Vector UInt64 4) :=
  if checks && decide (2 ^ 64 ≤ ret[k]!.toNat + x.toNat) then none else some (ret.set! k (ret[k]! + x))

/-- Word `i` of the number that is shifted goes to two words of the result. -/
def shlWord (checks : Bool) (original : Vector UInt64 4) (wordShift bitShift i : Nat) (ret : Vector UInt64 4) :
    Option (Vector UInt64 4) := do
  let ret ←
    if bitShift < 64 ∧ i + wordShift < 4 then addTo checks ret (i + wordShift) (original[i]! <<< UInt64.ofNat bitShift)
    else some ret
  if 0 < bitShift ∧ i + wordShift + 1 < 4 then
    addTo checks ret (i + wordShift + 1) (original[i]! >>> UInt64.ofNat (64 - bitShift))
  else some ret

/-- `x << shift`, with a panic as `none`. -/
def shl (checks : Bool) (x : Uint256) (shift : Nat) : Option Uint256 :=
  (Loop.forRange 0 4 (fun i ret => ret.bind (shlWord checks x.words (shift / 64) (shift % 64) i))
    (some (Vector.replicate 4 0))).map Uint256.mk

def cmp (x y : Uint256) : Ordering := Limbs.lexCmp x.words.toList.reverse y.words.toList.reverse

/-- `x <= y`, which goes by `cmp`. -/
def le (x y : Uint256) : Bool := (x.cmp y).isLE

end Uint256

def u256FromCompactTarget (checks : Bool) (bits : UInt32) : Option Uint256 :=
  let unshiftedExpt := bits >>> 24
  let (mant, expt) : UInt32 × UInt32 :=
    if unshiftedExpt ≤ 3 then ((bits &&& 0xFFFFFF) >>> ((8 : UInt32) * (3 - unshiftedExpt)), 0)
    else (bits &&& 0xFFFFFF, (8 : UInt32) * ((bits >>> 24) - 3))
  if mant > 0x7FFFFF then some ⟨Vector.replicate 4 0⟩
  else (Uint256.fromU64 mant.toUInt64).shl checks expt.toNat

end CryptixMiner
