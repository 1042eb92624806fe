import CryptixMiner.Theorems.DotProducts
import Mathlib.Tactic.IntervalCases

/-! What the parts of a kernel have to do with the processor's code: the tables and bases are the same, four
    columns are added exactly, and a loop runs to its count. Both kernels do this, on every architecture and
    in every build. -/

namespace CryptixMiner
open Device

/-- The parts of a kernel agree with the processor's. -/
structure KernelAgrees (K : Kernel) : Prop where
  powHashInitialState : K.POW_HASH_INITIAL_STATE = PowHasher.INITIAL_STATE
  heavyHashInitialState : K.HEAVY_HASH_INITIAL_STATE = HeavyHasher.INITIAL_STATE
  sourceSelectors : K.SBOX_SOURCE_SELECTORS = SBOX_SOURCE_SELECTORS
  valueSelectors : K.SBOX_VALUE_SELECTORS = SBOX_VALUE_SELECTORS
  valueMultipliers : K.SBOX_VALUE_MULTIPLIERS = SBOX_VALUE_MULTIPLIERS
  valueAdders : K.SBOX_VALUE_ADDERS = SBOX_VALUE_ADDERS
  afterCompLut : K.AFTER_COMP_LUT = AFTER_COMP_LUT
  dot4Acc : ∀ (sum : UInt32) (row4 nib4 : Bytes 4), (∀ k (_ : k < 4), row4[k] < 16) → (∀ k (_ : k < 4), nib4[k] < 16) →
    K.dot4Acc sum row4 nib4 = sum + row4[0]!.toUInt32 * nib4[0]!.toUInt32 + row4[1]!.toUInt32 * nib4[1]!.toUInt32
      + row4[2]!.toUInt32 * nib4[2]!.toUInt32 + row4[3]!.toUInt32 * nib4[3]!.toUInt32
  rotateLeftBase : ∀ (b : Buffers) {segment : Nat}, segment < 16 →
    K.rotateLeftBase b segment = b.rotateLeftBases[segment]!
  rotateRightBase : ∀ (b : Buffers) {segment : Nat}, segment < 16 →
    K.rotateRightBase b segment = b.rotateRightBases[segment]!
  loop : ∀ {bound count : Nat} (body : Nat → Bytes 32 → Bytes 32) (currentHash : Bytes 32), count ≤ bound →
    K.loop bound count body currentHash = Loop.forRange 0 count body currentHash

namespace Cuda

theorem dot4Acc_eq (arch : Nat) {row4 nib4 : Bytes 4} (hrow : ∀ k (_ : k < 4), row4[k] < 16)
    (hnib : ∀ k (_ : k < 4), nib4[k] < 16) (sum : UInt32) : dot4Acc arch sum row4 nib4 =
      sum + row4[0]!.toUInt32 * nib4[0]!.toUInt32 + row4[1]!.toUInt32 * nib4[1]!.toUInt32
        + row4[2]!.toUInt32 * nib4[2]!.toUInt32 + row4[3]!.toUInt32 * nib4[3]!.toUInt32 := by
  have h128 {v : Bytes 4} (hv : ∀ k (_ : k < 4), v[k] < 16) : ∀ k (_ : k < 4), v[k] < 128 := fun k hk =>
    UInt8.lt_trans (hv k hk) (by decide)
  by_cases harch : arch ≥ 610
  · rw [dot4Acc, if_pos harch, dp4a_eq (h128 hrow) (h128 hnib)]
  · rw [dot4Acc, if_neg harch]

theorem kernel_agrees (arch : Nat) : KernelAgrees (kernel arch) where
  powHashInitialState := rfl
  heavyHashInitialState := rfl
  sourceSelectors := rfl
  valueSelectors := rfl
  valueMultipliers := rfl
  valueAdders := rfl
  afterCompLut := rfl
  dot4Acc sum _ _ hrow hnib := dot4Acc_eq arch hrow hnib sum
  rotateLeftBase _ _ _ := rfl
  rotateRightBase _ _ _ := rfl
  loop body currentHash hle := Loop.forUntil_le body _ 0 currentHash (Nat.zero_le _) (by omega)

end Cuda

namespace OpenCl

theorem cryptisDot4Acc_eq (build : Build) (row4 nib4 : Bytes 4) (sum : UInt32) :
    cryptisDot4Acc build sum (row4.map UInt8.toUInt32) (nib4.map UInt8.toUInt32) =
      sum + row4[0]!.toUInt32 * nib4[0]!.toUInt32 + row4[1]!.toUInt32 * nib4[1]!.toUInt32
        + row4[2]!.toUInt32 * nib4[2]!.toUInt32 + row4[3]!.toUInt32 * nib4[3]!.toUInt32 := by
  have hwide (v : Bytes 4) {k : Nat} (hk : k < 4) : (v.map UInt8.toUInt32)[k]! = v[k]!.toUInt32 := by
    rw [Loop.getElem!_eq _ hk, Vector.getElem_map, Loop.getElem!_eq v hk]
  cases hmad : build.useMad24 with
  | true => simp (disch := decide) only [cryptisDot4Acc, hmad, if_true, hwide, mad24_bytes]
  | false => simp (disch := decide) only [cryptisDot4Acc, hmad, hwide, if_neg Bool.false_ne_true]

theorem cryptisRotateLeftBase_eq (b : Buffers) {segment : Nat} (hs : segment < 16) :
    cryptisRotateLeftBase segment b = b.rotateLeftBases[segment]! := by
  interval_cases segment <;> rfl

theorem cryptisRotateRightBase_eq (b : Buffers) {segment : Nat} (hs : segment < 16) :
    cryptisRotateRightBase segment b = b.rotateRightBases[segment]! := by
  interval_cases segment <;> rfl

theorem kernel_agrees (build : Build) : KernelAgrees (kernel build) where
  powHashInitialState := rfl
  heavyHashInitialState := rfl
  sourceSelectors := rfl
  valueSelectors := rfl
  valueMultipliers := rfl
  valueAdders := rfl
  afterCompLut := rfl
  dot4Acc sum row4 nib4 _ _ := cryptisDot4Acc_eq build row4 nib4 sum
  rotateLeftBase b _ hs := by
    cases hdemand : build.rotateBasesOnDemand with
    | true => simp only [kernel, hdemand, if_true, cryptisRotateLeftBase_eq b hs]
    | false =>
      simp only [kernel, hdemand, if_neg Bool.false_ne_true]
      rfl
  rotateRightBase b _ hs := by
    cases hdemand : build.rotateBasesOnDemand with
    | true => simp only [kernel, hdemand, if_true, cryptisRotateRightBase_eq b hs]
    | false =>
      simp only [kernel, hdemand, if_neg Bool.false_ne_true]
      rfl
  loop _ _ _ := rfl

end OpenCl

/-- A device: a CUDA architecture or a build for OpenCL. -/
inductive Gpu where
  | cuda (arch : Nat)
  | openCl (build : OpenCl.Build)

def Gpu.kernel : Gpu → Kernel
  | .cuda arch => Cuda.kernel arch
  | .openCl build => OpenCl.kernel build

theorem Gpu.kernel_agrees : ∀ gpu : Gpu, KernelAgrees gpu.kernel
  | .cuda arch => Cuda.kernel_agrees arch
  | .openCl build => OpenCl.kernel_agrees build

end CryptixMiner
