import CryptixMiner.Lib.Xoshiro256
import CryptixMiner.Pow.Xoshiro

/-! The generator that a matrix is drawn from. Its step is the step of the xoshiro256 engine: it is a bijection that
    keeps zero, so a hash other than zero never leads to the state in which all draws are zero. -/

namespace CryptixMiner.XoShiRo256PlusPlus
open Xoshiro256 (Quad next)

/-- The state of the engine. -/
def quad (g : XoShiRo256PlusPlus) : Quad := ⟨g.s0, g.s1, g.s2, g.s3⟩

def ofQuad (s : Quad) : XoShiRo256PlusPlus := ⟨s.s0, s.s1, s.s2, s.s3⟩

theorem quad_injective : Function.Injective quad := fun _ _ h => congrArg ofQuad h

theorem rotateLeft64_eq_rotl (x : UInt64) : rotateLeft64 x 45 = Xoshiro256.rotl x := by
  refine UInt64.toBitVec_inj.mp ?_
  simp only [rotateLeft64, Xoshiro256.rotl, BitVec.rotateLeft_def, UInt64.toBitVec_or, UInt64.toBitVec_shiftLeft,
    UInt64.toBitVec_shiftRight]
  rfl

theorem quad_u64 (g : XoShiRo256PlusPlus) : g.u64.2.quad = next g.quad := by
  simp only [u64, quad, next, rotateLeft64_eq_rotl]

theorem quad_after (g : XoShiRo256PlusPlus) (n : Nat) : (g.after n).quad = next^[n] g.quad := by
  have hcommute : Function.Semiconj quad (fun g => g.u64.2) next := quad_u64
  exact (hcommute.iterate_right n) g

theorem quad_new_eq_zero_iff (hash : Hash) : (new hash).quad = 0 ↔ hash = ⟨Vector.replicate 4 0⟩ := by
  refine ⟨fun h => ?_, fun h => ?_⟩
  · simp only [quad, new, Xoshiro256.Quad.zero_def, Quad.mk.injEq] at h
    obtain ⟨h0, h1, h2, h3⟩ := h
    obtain ⟨words⟩ := hash
    refine congrArg Uint256.mk (Vector.ext fun i hi => ?_)
    rw [Vector.getElem_replicate]
    have hcase : i = 0 ∨ i = 1 ∨ i = 2 ∨ i = 3 := by omega
    rcases hcase with rfl | rfl | rfl | rfl
    · exact h0
    · exact h1
    · exact h2
    · exact h3
  · rw [h]
    rfl

theorem u64_injective : Function.Injective fun g : XoShiRo256PlusPlus => g.u64.2 := by
  intro g g' h
  refine quad_injective (Xoshiro256.next_injective ?_)
  rw [← quad_u64, ← quad_u64]
  exact congrArg quad h

theorem u64_surjective : Function.Surjective fun g : XoShiRo256PlusPlus => g.u64.2 := by
  intro g
  obtain ⟨s, hs⟩ := (Finite.injective_iff_surjective.mp Xoshiro256.next_injective) g.quad
  refine ⟨ofQuad s, quad_injective ?_⟩
  rw [quad_u64]
  exact hs

theorem after_eq_zero_iff (hash : Hash) (n : Nat) :
    (new hash).after n = ⟨0, 0, 0, 0⟩ ↔ hash = ⟨Vector.replicate 4 0⟩ := by
  have hzero : (new hash).after n = ⟨0, 0, 0, 0⟩ ↔ ((new hash).after n).quad = next^[n] 0 := by
    rw [Xoshiro256.next_iterate_zero]
    exact quad_injective.eq_iff.symm
  rw [hzero, quad_after, (Xoshiro256.next_injective.iterate n).eq_iff, quad_new_eq_zero_iff]

/-- From the zero hash all draws are zero. -/
theorem draw_zero (n : Nat) : (new ⟨Vector.replicate 4 0⟩).draw n = 0 := by
  rw [draw, (after_eq_zero_iff _ n).mpr rfl]
  rfl

/-- The step is a bijection, and the state after any number of draws is zero for the zero hash alone, whose draws are
    all zero. -/
theorem u64_bijective_and_after :
    Function.Bijective (fun g : XoShiRo256PlusPlus => g.u64.2) ∧
      (∀ hash n, (new hash).after n ≠ ⟨0, 0, 0, 0⟩ ↔ hash ≠ ⟨Vector.replicate 4 0⟩) ∧
        ∀ n, (new ⟨Vector.replicate 4 0⟩).draw n = 0 ∧ (new ⟨Vector.replicate 4 0⟩).after n = ⟨0, 0, 0, 0⟩ :=
  ⟨⟨u64_injective, u64_surjective⟩, fun hash n => not_congr (after_eq_zero_iff hash n),
    fun n => ⟨draw_zero n, (after_eq_zero_iff _ n).mpr rfl⟩⟩

end CryptixMiner.XoShiRo256PlusPlus
