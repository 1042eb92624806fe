import Mathlib.Data.Nat.Bitwise
import CryptixMiner.Kernel.Xoshiro256StarStar
import CryptixMiner.Lib.Limbs
import CryptixMiner.Lib.Xoshiro256
import CryptixMiner.Miner.Xoshiro256StarStar

/-! The long jump of the host and the reference of the kernel. The reference is the sum of the states that the bits of
    `LONG_JUMP` select, and `2 ^ 192` steps; the host's agrees with it at no state but zero. -/

namespace CryptixMiner
open Xoshiro256 (Quad next select)

/-- Bit `b` of a word, as both loops test it. -/
theorem and_one_shiftLeft_ne_zero (jmp : UInt64) {b : Nat} (hb : b < 64) :
    jmp &&& (1 <<< UInt64.ofNat b) ≠ 0 ↔ jmp.toNat.testBit b = true := by
  have hshift : ((1 : UInt64) <<< UInt64.ofNat b).toNat = 2 ^ b := by
    rw [UInt64.toNat_shiftLeft, Words.toNat_shiftAmount hb, Nat.shiftLeft_eq]
    simp only [UInt64.reduceToNat, Nat.one_mul]
    exact Nat.mod_eq_of_lt (Nat.pow_lt_pow_right (by decide) hb)
  rw [ne_eq, ← UInt64.toNat_inj, UInt64.toNat_and, hshift, Nat.and_two_pow]
  cases jmp.toNat.testBit b with
  | false => simp
  | true => simp [Nat.pow_eq_zero]

/-! ### The reference -/

namespace Cuda

def Ulonglong4.quad (s : Ulonglong4) : Quad := ⟨s.x, s.y, s.z, s.w⟩

theorem Ulonglong4.quad_inj {s t : Ulonglong4} (h : s.quad = t.quad) : s = t := by
  obtain ⟨x, y, z, w⟩ := s
  obtain ⟨x', y', z', w'⟩ := t
  simpa [quad] using h

/-- `LONG_JUMP` as one number of 256 bits. -/
def longJumpBits : Nat := Limbs.value LONG_JUMP.toList

theorem quad_xoshiro256Next (s : Ulonglong4) : (xoshiro256Next s).2.quad = next s.quad := rfl

theorem quad_next_iterate (n : Nat) (s : Ulonglong4) :
    ((fun s => (xoshiro256Next s).2)^[n] s).quad = next^[n] s.quad :=
  (Function.Semiconj.iterate_right (f := Ulonglong4.quad) quad_xoshiro256Next n) s

theorem longJumpBit_eq {i b : Nat} (hi : i < 4) (hb : b < 64) (q : Ulonglong4 × Ulonglong4) :
    ((longJumpBit i b q).1.quad, (longJumpBit i b q).2.quad) =
      (if longJumpBits.testBit (64 * i + b) then q.1.quad + q.2.quad else q.1.quad, next q.2.quad) := by
  have hword : LONG_JUMP.toList.getD i 0 = LONG_JUMP[i]! := by
    have hi' : i < LONG_JUMP.toList.length := by rwa [Vector.length_toList]
    rw [List.getD_eq_getElem?_getD, List.getElem?_eq_getElem hi', Option.getD_some, Vector.getElem_toList,
      Loop.getElem!_eq _ hi]
  have hdiv : (64 * i + b) / 64 = i := by omega
  have hmod : (64 * i + b) % 64 = b := by omega
  have hbit : LONG_JUMP[i]! &&& (1 <<< UInt64.ofNat b) ≠ 0 ↔ longJumpBits.testBit (64 * i + b) = true := by
    rw [and_one_shiftLeft_ne_zero _ hb, longJumpBits, Limbs.testBit_value, hdiv, hmod, hword]
  simp only [longJumpBit]
  by_cases h : LONG_JUMP[i]! &&& (1 <<< UInt64.ofNat b) ≠ 0
  · rw [if_pos h, if_pos (hbit.mp h)]
    rfl
  · rw [if_neg h, if_neg (mt hbit.mpr h)]
    rfl

theorem quad_longJumpWord {i : Nat} (hi : i < 4) (q : Ulonglong4 × Ulonglong4) :
    ((Loop.forRange 0 64 (longJumpBit i) q).1.quad, (Loop.forRange 0 64 (longJumpBit i) q).2.quad) =
      (q.1.quad + select (fun b => longJumpBits.testBit (64 * i + b)) 64 q.2.quad, next^[64] q.2.quad) := by
  rw [← Xoshiro256.forRange_select]
  refine Loop.forRange_rel (R := fun _ (q : Ulonglong4 × Ulonglong4) r => (q.1.quad, q.2.quad) = r) (Nat.zero_le 64)
    rfl ?_
  rintro b q _ - hb rfl
  exact longJumpBit_eq hi hb q

theorem quad_xoshiro256LongJump (s : Ulonglong4) :
    (xoshiro256LongJump s).quad = select longJumpBits.testBit 256 s.quad := by
  have hinv : _ ∧ (Loop.forRange 0 4 (fun i q => Loop.forRange 0 64 (longJumpBit i) q)
      (⟨0, 0, 0, 0⟩, s)).2.quad = _ :=
    Loop.forRange_inv (P := fun i (q : Ulonglong4 × Ulonglong4) =>
    q.1.quad = select longJumpBits.testBit (64 * i) s.quad ∧ q.2.quad = next^[64 * i] s.quad)
    (Nat.zero_le 4) ⟨rfl, rfl⟩ ?_
  · exact hinv.1
  · intro i q _ hi hq
    obtain ⟨hsum, hstate⟩ := Prod.mk.inj (quad_longJumpWord hi q)
    have hsucc : 64 * (i + 1) = 64 * i + 64 := Nat.mul_succ 64 i
    rw [hsum, hstate, hq.1, hq.2, hsucc, Xoshiro256.select_add, Nat.add_comm (64 * i) 64, Function.iterate_add_apply]
    exact ⟨rfl, rfl⟩

/-- The reference takes `2 ^ 192` steps. -/
theorem select_longJumpBits (s : Quad) : select longJumpBits.testBit 256 s = next^[2 ^ 192] s := by
  by_cases hs : s = 0
  · rw [hs, Xoshiro256.select_zero, Xoshiro256.next_iterate_zero]
  · refine (Xoshiro256.eq_iff_unit (Xoshiro256.select_next _ 256) (fun s => ?_) hs).mpr ?_
    · rw [← Function.iterate_succ_apply, Function.iterate_succ_apply']
    · have hleap : Xoshiro256.leap (2 ^ 192) =
          some (Xoshiro256.combine 256 (BinaryPoly.pack 256 longJumpBits) 1 0 0 0 0 0 0 0) := by decide +kernel
      have hsum := Xoshiro256.combine_pack 256 longJumpBits Xoshiro256.unit 0
      rw [zero_add] at hsum
      exact Xoshiro256.Quad.toNats_inj (hsum.symm.trans (Xoshiro256.leap_eq hleap).symm)

theorem xoshiro256LongJump_eq (s : Ulonglong4) :
    xoshiro256LongJump s = (fun s => (xoshiro256Next s).2)^[2 ^ 192] s := by
  refine Ulonglong4.quad_inj ?_
  rw [quad_xoshiro256LongJump, select_longJumpBits, quad_next_iterate]

end Cuda

/-! ### The jump of the host -/

namespace Xoshiro256StarStar

def quad (g : Xoshiro256StarStar) : Quad := ⟨g.state[0]!, g.state[1]!, g.state[2]!, g.state[3]!⟩

def Sums.quad (sums : Sums) : Quad := ⟨sums.s0, sums.s1, sums.s2, sums.s3⟩

theorem quad_inj {g h : Xoshiro256StarStar} (heq : g.quad = h.quad) : g = h := by
  obtain ⟨v⟩ := g
  obtain ⟨w⟩ := h
  simp only [quad, Quad.mk.injEq] at heq
  refine congrArg mk (Vector.ext fun i hi => ?_)
  rw [← Loop.getElem!_eq v hi, ← Loop.getElem!_eq w hi]
  have hcase : i = 0 ∨ i = 1 ∨ i = 2 ∨ i = 3 := by omega
  rcases hcase with rfl | rfl | rfl | rfl
  · exact heq.1
  · exact heq.2.1
  · exact heq.2.2.1
  · exact heq.2.2.2

theorem quad_nextU64 (g : Xoshiro256StarStar) : g.nextU64.2.quad = next g.quad := by
  simp [nextU64, quad, next, rotl, Xoshiro256.rotl]

theorem quad_jumpBits (jmp : UInt64) (q : Sums × Xoshiro256StarStar) :
    ((jumpBits jmp q).1.quad, (jumpBits jmp q).2.quad) =
      (q.1.quad + select jmp.toNat.testBit 64 q.2.quad, next^[64] q.2.quad) := by
  rw [← Xoshiro256.forRange_select]
  refine Loop.forRange_rel (R := fun _ (q : Sums × Xoshiro256StarStar) r => (q.1.quad, q.2.quad) = r)
    (Nat.zero_le 64) rfl ?_
  rintro b q _ - hb rfl
  dsimp only
  rw [quad_nextU64]
  by_cases h : jmp &&& (1 <<< UInt64.ofNat b) ≠ 0
  · rw [if_pos h, if_pos ((and_one_shiftLeft_ne_zero jmp hb).mp h)]
    rfl
  · rw [if_neg h, if_neg (mt (and_one_shiftLeft_ne_zero jmp hb).mpr h)]

theorem quad_jumpWord (jmp : UInt64) (q : Sums × Xoshiro256StarStar) :
    (jumpWord q jmp).1.quad = q.1.quad + select jmp.toNat.testBit 64 q.2.quad ∧
      (jumpWord q jmp).2.quad = (jumpWord q jmp).1.quad := by
  refine ⟨(Prod.mk.inj (quad_jumpBits jmp q)).1, ?_⟩
  simp [jumpWord, quad, Sums.quad]

/-- What one word makes of a state: the sum over its bits is added to the state that it started from. -/
def stage (jmp : UInt64) (s : Quad) : Quad := s + select jmp.toNat.testBit 64 s

/-- The jump of the host, on states. -/
def hostLeap (s : Quad) : Quad :=
  stage 0x39109bb02acbe635 (stage 0x77710069854ee241 (stage 0xc5004e441c522fb3
    (select (0x76e15d3efefdcbbf : UInt64).toNat.testBit 64 s)))

/-- A word that starts from its own sums. -/
theorem jumpWord_stage {q : Sums × Xoshiro256StarStar} (hq : q.2.quad = q.1.quad) (jmp : UInt64) :
    (jumpWord q jmp).1.quad = stage jmp q.1.quad ∧ (jumpWord q jmp).2.quad = (jumpWord q jmp).1.quad := by
  obtain ⟨hsum, hstate⟩ := quad_jumpWord jmp q
  rw [hq] at hsum
  exact ⟨hsum, hstate⟩

theorem quad_longJump (g : Xoshiro256StarStar) : g.longJump.quad = hostLeap g.quad := by
  obtain ⟨h0, e0⟩ := quad_jumpWord 0x76e15d3efefdcbbf (⟨0, 0, 0, 0⟩, g)
  obtain ⟨h1, e1⟩ := jumpWord_stage e0 0xc5004e441c522fb3
  obtain ⟨h2, e2⟩ := jumpWord_stage e1 0x77710069854ee241
  obtain ⟨h3, e3⟩ := jumpWord_stage e2 0x39109bb02acbe635
  have hzero : Sums.quad ⟨0, 0, 0, 0⟩ = 0 := rfl
  rw [hzero, zero_add] at h0
  rw [hostLeap, ← h0, ← h1, ← h2, ← h3, ← e3]
  rfl

theorem stage_next (jmp : UInt64) (s : Quad) : stage jmp (next s) = next (stage jmp s) := by
  rw [stage, Xoshiro256.select_next, ← Xoshiro256.next_add, stage]

theorem hostLeap_next (s : Quad) : hostLeap (next s) = next (hostLeap s) := by
  rw [hostLeap, Xoshiro256.select_next, stage_next, stage_next, stage_next, hostLeap]

/-- The sums of a stage, on numbers. -/
def stageNat (jmp : Nat) : Nat × Nat × Nat × Nat → Nat × Nat × Nat × Nat
  | (s0, s1, s2, s3) => Xoshiro256.combine 64 (BinaryPoly.pack 64 jmp) s0 s1 s2 s3 s0 s1 s2 s3

theorem toNats_stage (jmp : UInt64) (s : Quad) : (stage jmp s).toNats = stageNat jmp.toNat s.toNats :=
  (Xoshiro256.combine_pack 64 jmp.toNat s s).symm

theorem toNats_select_unit (jmp : UInt64) : (select jmp.toNat.testBit 64 Xoshiro256.unit).toNats =
    Xoshiro256.combine 64 (BinaryPoly.pack 64 jmp.toNat) 1 0 0 0 0 0 0 0 := by
  have h := Xoshiro256.combine_pack 64 jmp.toNat Xoshiro256.unit 0
  rw [zero_add] at h
  exact h.symm

theorem hostLeap_unit_ne : hostLeap Xoshiro256.unit ≠ select Cuda.longJumpBits.testBit 256 Xoshiro256.unit := by
  intro h
  have hhost := congrArg Quad.toNats h
  have hreference := Xoshiro256.combine_pack 256 Cuda.longJumpBits Xoshiro256.unit 0
  rw [zero_add] at hreference
  rw [hostLeap, toNats_stage, toNats_stage, toNats_stage, toNats_select_unit, ← hreference] at hhost
  revert hhost
  decide +kernel

theorem hostLeap_zero : hostLeap 0 = 0 := by
  simp only [hostLeap, stage, Xoshiro256.select_zero, add_zero]

theorem hostLeap_eq_iff (s : Quad) : hostLeap s = select Cuda.longJumpBits.testBit 256 s ↔ s = 0 := by
  constructor
  · intro h
    by_contra hs
    exact hostLeap_unit_ne ((Xoshiro256.eq_iff_unit hostLeap_next (Xoshiro256.select_next _ 256) hs).mp h)
  · rintro rfl
    rw [hostLeap_zero, Xoshiro256.select_zero]

/-! ### Seeds of threads -/

/-- The state that `next_u64` leaves. -/
def step (g : Xoshiro256StarStar) : Xoshiro256StarStar := g.nextU64.2

/-- The words of a state as the kernel holds them. -/
def toUlonglong4 (g : Xoshiro256StarStar) : Cuda.Ulonglong4 :=
  ⟨g.state[0]!, g.state[1]!, g.state[2]!, g.state[3]!⟩

theorem quad_step_iterate (n : Nat) (g : Xoshiro256StarStar) : (step^[n] g).quad = next^[n] g.quad :=
  (Function.Semiconj.iterate_right (f := quad) quad_nextU64 n) g

theorem map_range_iterate {α β : Type} (p : α → β) (f : α → α) (n : Nat) (x : α) :
    (List.range (n + 1)).map (fun i => p (f^[i + 1] x)) =
      p (f x) :: (List.range n).map fun i => p (f^[i + 1] (f x)) := by
  rw [List.range_succ_eq_map, List.map_cons, List.map_map]
  rfl

theorem take_iterJumpState (n : Nat) (it : Xoshiro256StarStarStateIter) :
    it.take n = (List.range n).map fun i => (longJump^[i + 1] it.current).state := by
  induction n generalizing it with
  | zero => rfl
  | succ n ih =>
    have htake : it.take (n + 1) =
        it.current.longJump.state :: Xoshiro256StarStarStateIter.take n ⟨it.current.longJump⟩ := rfl
    rw [map_range_iterate state longJump, htake, ih]

theorem quad_eq_zero_iff (g : Xoshiro256StarStar) : g.quad = 0 ↔ g.state = Vector.replicate 4 0 := by
  constructor
  · intro h
    exact congrArg state (quad_inj (h := ⟨Vector.replicate 4 0⟩) h)
  · intro h
    rw [quad, h]
    rfl

theorem longJump_eq_reference_iff (g : Xoshiro256StarStar) :
    toUlonglong4 g.longJump = Cuda.xoshiro256LongJump (toUlonglong4 g) ↔ g.state = Vector.replicate 4 0 := by
  have hquad : (toUlonglong4 g.longJump).quad = hostLeap g.quad := quad_longJump g
  have hreference : (Cuda.xoshiro256LongJump (toUlonglong4 g)).quad = select Cuda.longJumpBits.testBit 256 g.quad :=
    Cuda.quad_xoshiro256LongJump (toUlonglong4 g)
  rw [← quad_eq_zero_iff, ← hostLeap_eq_iff, ← hquad, ← hreference]
  exact ⟨congrArg _, Cuda.Ulonglong4.quad_inj⟩

/-- The jump is the reference's and the sum that `LONG_JUMP` selects, and the seeds are `2 ^ 192` steps apart, at the
    zero state alone. -/
theorem longJump_agrees_iff (g : Xoshiro256StarStar) :
    (toUlonglong4 g.longJump = Cuda.xoshiro256LongJump (toUlonglong4 g) ∧
      g.longJump.quad = ∑ k ∈ (Finset.range 256).filter ((Limbs.value LONG_JUMP).testBit ·), (step^[k] g).quad ∧
      ∀ n, g.iterJumpState.take n = (List.range n).map fun i => (step^[2 ^ 192 * (i + 1)] g).state) ↔
    g.state = Vector.replicate 4 0 := by
  constructor
  · rintro ⟨h, -, -⟩
    exact (longJump_eq_reference_iff g).mp h
  · intro hzero
    have hquad : g.quad = 0 := (quad_eq_zero_iff g).mpr hzero
    have hstep : ∀ k, (step^[k] g).quad = 0 := fun k => by
      rw [quad_step_iterate, hquad, Xoshiro256.next_iterate_zero]
    have hjump : Function.IsFixedPt longJump g := quad_inj (by rw [quad_longJump, hquad, hostLeap_zero])
    refine ⟨(longJump_eq_reference_iff g).mpr hzero, ?_, fun n => ?_⟩
    · rw [quad_longJump, hquad, hostLeap_zero]
      exact (Finset.sum_eq_zero fun k _ => hstep k).symm
    · rw [take_iterJumpState]
      refine List.map_congr_left fun i _ => ?_
      have hleft : longJump^[i + 1] g = g := hjump.iterate (i + 1)
      have hright : step^[2 ^ 192 * (i + 1)] g = g := quad_inj (by rw [hstep, hquad])
      rw [hright]
      exact congrArg state hleft

/-- The seed that a device starts from before it is filled at random. -/
theorem not_longJump_agrees_ones : toUlonglong4 (new (Vector.replicate 4 1)).longJump ≠
    Cuda.xoshiro256LongJump (toUlonglong4 (new (Vector.replicate 4 1))) := by
  rw [ne_eq, longJump_eq_reference_iff]
  decide

end Xoshiro256StarStar
end CryptixMiner
