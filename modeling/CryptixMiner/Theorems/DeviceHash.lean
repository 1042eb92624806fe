import CryptixMiner.Kernel.PreMatrix
import CryptixMiner.Pow.Generate
import CryptixMiner.Theorems.Generate
import CryptixMiner.Theorems.HashMatrix
import CryptixMiner.Theorems.HashPrimitives
import CryptixMiner.Theorems.Target

/-! The verdict of a device on a nonce is the verdict of the processor: what a kernel computes from the header, the
    matrix and the target of a job is what `check_pow` computes, where the hash functions of the processor's crates
    are the standard ones. -/

namespace CryptixMiner
open Keccak Sha3

/-- The crates compute Keccak-f[1600], SHA3-256 and BLAKE3. -/
structure Primitives.Standard (P : Primitives) : Prop where
  keccakF1600 : ∀ st, P.keccakF1600 st = f1600 st
  sha3_256 : ∀ input, (P.sha3_256 input).toList = Sha3.sha3_256 input.toList
  blake3 : ∀ input, (P.blake3 input).toList = Blake3.hash input.toList

theorem Cuda.primitives_standard : Cuda.primitives.Standard where
  keccakF1600 := Cuda.keccakF1600_eq
  sha3_256 := Cuda.toList_sha3_256_32bytes
  blake3 := Cuda.toList_blake3Compress32

/-- There is one such set of hash functions, and the kernels bring it. -/
theorem Primitives.Standard.eq_cuda {P : Primitives} (h : P.Standard) : P = Cuda.primitives := by
  obtain ⟨keccakF1600, sha3_256, blake3⟩ := P
  have hkeccak : keccakF1600 = Cuda.keccakF1600 := by
    funext st
    exact (h.keccakF1600 st).trans (Cuda.keccakF1600_eq st).symm
  have hsha3 : sha3_256 = Cuda.sha3_256_32bytes := by
    funext input
    exact Vector.toList_inj.mp ((h.sha3_256 input).trans (Cuda.toList_sha3_256_32bytes input).symm)
  have hblake3 : blake3 = Cuda.blake3Compress32 := by
    funext input
    exact Vector.toList_inj.mp ((h.blake3 input).trans (Cuda.toList_blake3Compress32 input).symm)
  rw [hkeccak, hsha3, hblake3]
  rfl

/-! ### Jobs -/

/-- The entries that are drawn are nibbles. -/
theorem Matrix.nibbles_randMatrix (g : XoShiRo256PlusPlus) : (Matrix.randMatrixNoRankCheck g).1.Nibbles := by
  intro r hr c hc
  have hentry := Matrix.randMatrix_entry g hr hc
  rw [Loop.getElem!_eq _ hr, Loop.getElem!_eq _ hc] at hentry
  rw [UInt8.lt_iff_toNat_lt, hentry]
  exact Nat.mod_lt _ (by decide)

theorem Matrix.nibbles_of_generate {fuel : Nat} {hash : Hash} {m : Matrix} (h : Matrix.generate fuel hash = some m) :
    m.Nibbles := by
  have hloop : ∀ fuel g, Matrix.generateLoop fuel g = some m → m.Nibbles := by
    intro fuel
    induction fuel with
    | zero => exact nofun
    | succ fuel ih =>
      intro g hg
      rw [Matrix.generateLoop] at hg
      by_cases hrank : (Matrix.randMatrixNoRankCheck g).1.computeRank = 64
      · rw [if_pos hrank] at hg
        rw [← Option.some.inj hg]
        exact Matrix.nibbles_randMatrix g
      · rw [if_neg hrank] at hg
        exact ih _ hg
  exact hloop fuel _ h

/-- A state that `State::new` made, with a matrix of nibbles, as `Matrix::generate` draws it. -/
structure State.IsJob {Block : Type} (s : State Block) : Prop where
  nibbles : s.matrix.Nibbles
  made : ∃ B id blockSeed, State.new B id blockSeed = .ok s

theorem State.IsJob.of_generate {Block : Type} {s : State Block} {B : Builder Block} {id : Nat}
    {blockSeed : BlockSeed Block} (h : State.new B id blockSeed = .ok s) {fuel : Nat} {hash : Hash}
    (hgen : Matrix.generate fuel hash = some s.matrix) : s.IsJob :=
  ⟨Matrix.nibbles_of_generate hgen, B, id, blockSeed, h⟩

/-- A kernel with the header, matrix and target of a job judges as `check_pow` does. -/
theorem State.IsJob.meets_eq {Block : Type} {s : State Block} (h : s.IsJob) {K : Kernel} (hK : KernelAgrees K)
    {P : Primitives} (hP : P.Standard) (useAvx2 : Bool) (nonce : UInt64) :
    Kernel.hashMeetsTargetWords (K.calculatePowWithHeaderAndMatrix Cuda.primitives s.matrix.bytes s.powHashHeader nonce)
      s.target.words = s.checkPow P useAvx2 nonce := by
  obtain ⟨hm, B, id, blockSeed, hnew⟩ := h
  rw [hP.eq_cuda, Kernel.calculatePow_eq hK hnew hm Cuda.primitives useAvx2, Uint256.hashMeetsTargetWords_eq,
    State.checkPow]

end CryptixMiner
