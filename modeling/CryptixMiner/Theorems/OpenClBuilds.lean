import CryptixMiner.Theorems.HashMatrix
import CryptixMiner.Theorems.HashPrimitives
import CryptixMiner.Theorems.OpenClUpload

/-! All builds of the OpenCL kernel hash alike: each of its three switches chooses between two ways to compute
    the same, so every build agrees with the processor, and with every other build. -/

namespace CryptixMiner

namespace Kernel

/-- Two kernels that agree with the processor agree with each other, on a matrix of nibbles. -/
theorem calculatePow_congr {K K' : Kernel} (hK : KernelAgrees K) (hK' : KernelAgrees K') {m : Matrix} (hm : m.Nibbles)
    (P : Primitives) (header : Bytes 72) (nonce : UInt64) :
    K.calculatePowWithHeaderAndMatrix P m.bytes header nonce =
      K'.calculatePowWithHeaderAndMatrix P m.bytes header nonce := by
  have hfinalize : K.powHashFinalizeFromHeader P header nonce = K'.powHashFinalizeFromHeader P header nonce := by
    simp only [powHashFinalizeFromHeader, hK.powHashInitialState, hK'.powHashInitialState]
  rw [calculatePowWithHeaderAndMatrix, calculatePowWithHeaderAndMatrix, calculatePowPreMatrixFromHeader_eq hK,
    calculatePowPreMatrixFromHeader_eq hK', hfinalize, cryptixHashMatrix_eq hK hm P _ false,
    cryptixHashMatrix_eq hK' hm P _ false]

end Kernel

namespace OpenCl
open Device

/-- With factors of 24 bits, the chained products are the plain ones. -/
theorem cryptisDot4Acc_mad24 (onDemand : Bool) (sum : UInt32) {row nib : Vector UInt32 4}
    (hrow : ∀ k < 4, row[k]!.toNat < 0x1000000) (hnib : ∀ k < 4, nib[k]!.toNat < 0x1000000) :
    cryptisDot4Acc ⟨true, onDemand⟩ sum row nib = cryptisDot4Acc ⟨false, onDemand⟩ sum row nib := by
  have hmad {k : Nat} (hk : k < 4) (z : UInt32) : mad24 row[k]! nib[k]! z = z + row[k]! * nib[k]! := by
    rw [mad24_eq (hrow k hk) (hnib k hk), UInt32.add_comm]
  simp (disch := decide) only [cryptisDot4Acc, if_true, if_neg Bool.false_ne_true, hmad]

/-- The result does not depend on the three switches, nor does any of the functions that they choose between. -/
theorem builds_agree (m : Matrix) (hm : m.Nibbles) :
    (∀ (s s' : Switches) (header : Bytes 72) (nonce : UInt64),
      calculatePowWithHeaderAndMatrix s m.bytes header nonce = calculatePowWithHeaderAndMatrix s' m.bytes header nonce) ∧
    (∀ st, keccakUnrolled (keccakFixed st) = Cuda.keccakRows (keccakLanes st)) ∧
    (∀ (s s' : Switches) (st : KeccakState), keccakF1600 s st = keccakF1600 s' st) ∧
    (∀ (b : Buffers) (segment : Nat), segment < 16 →
      cryptisRotateLeftBase segment b = (rotateLeftBases b)[segment]! ∧
        cryptisRotateRightBase segment b = (rotateRightBases b)[segment]!) ∧
    (∀ (build build' : Build) (sum : UInt32) (row4 nib4 : Bytes 4),
      cryptisDot4Acc build sum (row4.map UInt8.toUInt32) (nib4.map UInt8.toUInt32) =
        cryptisDot4Acc build' sum (row4.map UInt8.toUInt32) (nib4.map UInt8.toUInt32)) ∧
    ∀ (onDemand : Bool) (sum : UInt32) (row nib : Vector UInt32 4), (∀ k < 4, row[k]!.toNat < 0x1000000) →
      (∀ k < 4, nib[k]!.toNat < 0x1000000) →
        cryptisDot4Acc ⟨true, onDemand⟩ sum row nib = cryptisDot4Acc ⟨false, onDemand⟩ sum row nib := by
  refine ⟨fun s s' header nonce => ?_, fun st => ?_, fun s s' st => ?_, fun b segment hs => ⟨?_, ?_⟩,
    fun build build' sum row4 nib4 => ?_, fun onDemand sum row nib hrow hnib => cryptisDot4Acc_mad24 onDemand sum hrow hnib⟩
  · rw [calculatePowWithHeaderAndMatrix, calculatePowWithHeaderAndMatrix, primitives_eq s, primitives_eq s',
      Kernel.calculatePow_congr (kernel_agrees s.toBuild) (kernel_agrees s'.toBuild) hm]
  · rw [keccakFixed_eq, keccakUnrolled_eq, keccakLanes_eq, Cuda.keccakRows_eq]
  · rw [keccakF1600_eq, keccakF1600_eq]
  · exact cryptisRotateLeftBase_eq b hs
  · exact cryptisRotateRightBase_eq b hs
  · rw [cryptisDot4Acc_eq, cryptisDot4Acc_eq]

/-- Two builds that differ in all three switches. -/
theorem builds_agree_identity :
    calculatePowWithHeaderAndMatrix ⟨⟨true, false⟩, true⟩ identity.bytes (Vector.replicate 72 0) 1 =
      calculatePowWithHeaderAndMatrix ⟨⟨false, true⟩, false⟩ identity.bytes (Vector.replicate 72 0) 1 :=
  (builds_agree identity identity_nibbles).1 ⟨⟨true, false⟩, true⟩ ⟨⟨false, true⟩, false⟩ (Vector.replicate 72 0) 1

end OpenCl
end CryptixMiner
