import CryptixMiner.Launch.Block
import CryptixMiner.Lib.Loop
import CryptixMiner.Lib.StridedCopy

/-! When the shared copy of the matrix is whole. A thread copies the indices of its residue modulo the
    block size, so a thread that returned before the copy leaves its residue as shared memory held it. -/

namespace CryptixMiner.Launch
open StepSystem

namespace Block

/-- A block as a group of threads that copy byte by byte. -/
def group (b : Block) : StridedCopy.Group UInt8 matrixElems where
  dim := b.blockDim
  goesOn := b.goesOn
  chunk := 1
  chunk_pos := Nat.one_pos
  src := b.matrix

/-- The shared copy as the array that the group fills. -/
def Copy.toState (s : Copy) : StridedCopy.State UInt8 matrixElems := ⟨s.matrixLocal, s.idx⟩

section Run
variable {b : Block} {uninit : Bytes matrixElems} {s : Copy} {j : Nat}

theorem copyChunk_eq (b : Block) {i : Nat} (hi : i < matrixElems) (dst : Bytes matrixElems) :
    b.group.copyChunk i dst = dst.set! i b.matrix[i]! := by
  refine Vector.ext fun j hj => ?_
  rw [StridedCopy.Group.getElem_copyChunk hj, Loop.getElem_set! hj, Loop.getElem!_eq _ hi]
  simp only [group, Nat.div_one, eq_comm (a := j)]
  split
  · next heq =>
    subst heq
    rfl
  · rfl

theorem step_toState (b : Block) (s : Copy) (tid : Nat) :
    b.group.step (Copy.toState s) tid = (b.step s tid).map Copy.toState := by
  unfold step StridedCopy.Group.step
  simp only [group, Copy.toState, Nat.mul_one]
  by_cases hon : tid < b.blockDim ∧ b.goesOn tid = true ∧ s.idx tid < matrixElems
  · rw [if_pos hon, if_pos hon]
    exact congrArg (fun dst => some (StridedCopy.State.mk dst _)) (b.copyChunk_eq hon.2.2 s.matrixLocal)
  · rw [if_neg hon, if_neg hon]
    rfl

theorem atBarrier_toState : b.group.AtBarrier (Copy.toState s) ↔ b.AtBarrier s := by
  simp only [StridedCopy.Group.AtBarrier, AtBarrier, group, Copy.toState, Nat.mul_one]

/-- At the barrier, the bytes of the classes whose threads went on are those of the matrix, and the others
    what shared memory held. -/
theorem matrixLocal_at_barrier (hb : 0 < b.blockDim) (h : Reachable b.step (start uninit) s)
    (hdone : b.AtBarrier s) (hj : j < matrixElems) :
    s.matrixLocal[j] = if b.goesOn (j % b.blockDim) = true then b.matrix[j] else uninit[j] := by
  have hdst := StridedCopy.Group.dst_at_barrier (g := b.group) hb (h.map Copy.toState b.step_toState)
    (atBarrier_toState.mpr hdone) hj
  simp only [group, Nat.div_one] at hdst
  exact hdst

theorem exists_barrier (b : Block) (hb : 0 < b.blockDim) (uninit : Bytes matrixElems) :
    ∃ s, Reachable b.step (start uninit) s ∧ b.AtBarrier s := by
  obtain ⟨as, s', hrun, hdone⟩ := b.group.exists_barrier hb uninit
  have hmap := run_map Copy.toState b.step_toState as (start uninit)
  obtain ⟨s, hs, rfl⟩ := Option.map_eq_some_iff.mp (hmap.symm.trans hrun)
  exact ⟨s, .of_run as hs, atBarrier_toState.mp hdone⟩

end Run
end Block

/-! ### Which launches copy everything -/

section Launches
variable {workload blockSize : UInt32}

theorem launched_goesOn {matrix : Bytes matrixElems} {blockIdx tid : Nat} :
    (launched workload blockSize matrix blockIdx).goesOn tid = true ↔
      tid + blockIdx * blockSize.toNat < workload.toNat := by
  simp [launched, goesOn, gid]

theorem ne_add_one (x : UInt8) : x ≠ x + 1 := by
  intro h
  have hnat := congrArg UInt8.toNat h
  rw [UInt8.toNat_add] at hnat
  have hlt := x.toNat_lt
  have hone : (1 : UInt8).toNat = 1 := rfl
  omega

theorem setWorkload_toNat (hno : workload.toNat + blockSize.toNat < 2 ^ 32) (hb : 1 ≤ blockSize.toNat) :
    (setWorkload workload blockSize).toNat = (workload.toNat + blockSize.toNat - 1) / blockSize.toNat := by
  have hadd : (workload + blockSize).toNat = workload.toNat + blockSize.toNat := by
    rw [UInt32.toNat_add, Nat.mod_eq_of_lt hno]
  have hone : (1 : UInt32) ≤ workload + blockSize := by
    rw [UInt32.le_iff_toNat_le, hadd]
    exact Nat.le_add_left_of_le hb
  rw [setWorkload, UInt32.toNat_div, UInt32.toNat_sub_of_le _ _ hone, hadd]
  rfl

theorem copiesMatrix_of_dvd (hb : 1 ≤ blockSize.toNat) (hno : workload.toNat + blockSize.toNat < 2 ^ 32)
    (matrix : Bytes matrixElems) (hdvd : blockSize.toNat ∣ workload.toNat) :
    CopiesMatrix workload blockSize matrix := by
  obtain ⟨m, hm⟩ := hdvd
  have hgrid := setWorkload_toNat hno hb
  intro blockIdx hblock uninit s hreach hdone tid _ _
  refine Vector.ext fun j hj => ?_
  have hle : (blockIdx + 1) * blockSize.toNat ≤ workload.toNat := by
    rw [hgrid, Nat.lt_iff_add_one_le, Nat.le_div_iff_mul_le hb, hm] at hblock
    have hlt : (blockIdx + 1) * blockSize.toNat < (m + 1) * blockSize.toNat := by
      rw [Nat.succ_mul m, Nat.mul_comm m]
      omega
    rw [hm, Nat.mul_comm blockSize.toNat]
    exact Nat.mul_le_mul_right _ (Nat.le_of_lt_succ (Nat.lt_of_mul_lt_mul_right hlt))
  have hall : (launched workload blockSize matrix blockIdx).goesOn (j % blockSize.toNat) = true := by
    have hlt := Nat.mod_lt j hb
    rw [Nat.succ_mul] at hle
    exact launched_goesOn.mpr (by omega)
  exact (Block.matrixLocal_at_barrier (b := launched workload blockSize matrix blockIdx) hb hreach hdone
    hj).trans (if_pos hall)

/-- In the last block, the first thread past the workload leaves its residue of the matrix uncopied. -/
theorem not_copiesMatrix (hb : 1 ≤ blockSize.toNat) (hb' : blockSize.toNat ≤ 1024)
    (hno : workload.toNat + blockSize.toNat < 2 ^ 32) (matrix : Bytes matrixElems)
    (hnot : ¬blockSize.toNat ∣ workload.toNat) : ¬CopiesMatrix workload blockSize matrix := by
  intro h
  have hgrid := setWorkload_toNat hno hb
  -- Thread 0 of the last block goes on, its thread `r` is the first that does not.
  have hr : 0 < workload.toNat % blockSize.toNat :=
    Nat.pos_of_ne_zero fun h0 => hnot (Nat.dvd_of_mod_eq_zero h0)
  have hrb : workload.toNat % blockSize.toNat < blockSize.toNat := Nat.mod_lt _ hb
  have hdiv : workload.toNat % blockSize.toNat + workload.toNat / blockSize.toNat * blockSize.toNat =
      workload.toNat := by
    rw [Nat.mul_comm]
    exact Nat.mod_add_div _ _
  generalize hrdef : workload.toNat % blockSize.toNat = r at hr hrb hdiv
  generalize workload.toNat / blockSize.toNat = q at hdiv
  have hlast : q < (setWorkload workload blockSize).toNat := by
    rw [hgrid, Nat.lt_iff_add_one_le, Nat.le_div_iff_mul_le hb, Nat.succ_mul]
    omega
  have hrm : r < matrixElems := Nat.lt_of_lt_of_le hrb (Nat.le_trans hb' (by decide))
  obtain ⟨s, hreach, hdone⟩ :=
    (launched workload blockSize matrix q).exists_barrier hb (matrix.set! r (matrix[r] + 1))
  have hgo : (launched workload blockSize matrix q).goesOn 0 = true := launched_goesOn.mpr (by omega)
  have hstop : ¬(launched workload blockSize matrix q).goesOn (r % blockSize.toNat) = true := by
    rw [launched_goesOn, Nat.mod_eq_of_lt hrb]
    omega
  have hbyte := Block.matrixLocal_at_barrier (b := launched workload blockSize matrix q) hb hreach hdone hrm
  rw [h q hlast _ s hreach hdone 0 hb hgo] at hbyte
  rw [show (launched workload blockSize matrix q).blockDim = blockSize.toNat from rfl, if_neg hstop,
    Loop.getElem_set! hrm, if_pos rfl] at hbyte
  exact ne_add_one _ hbyte

/-- The copy is whole exactly when the workload is a multiple of the block size. -/
theorem copiesMatrix_iff (hb : 1 ≤ blockSize.toNat) (hb' : blockSize.toNat ≤ 1024)
    (hno : workload.toNat + blockSize.toNat < 2 ^ 32) (matrix : Bytes matrixElems) :
    CopiesMatrix workload blockSize matrix ↔ blockSize.toNat ∣ workload.toNat := by
  refine ⟨fun h => ?_, copiesMatrix_of_dvd hb hno matrix⟩
  by_contra hnot
  exact not_copiesMatrix hb hb' hno matrix hnot h

theorem copiesMatrix_iff_2048 :
    CopiesMatrix 2048 1024 (Vector.replicate matrixElems 5) ∧ (1024 : UInt32).toNat ∣ (2048 : UInt32).toNat :=
  have hdvd : (1024 : UInt32).toNat ∣ (2048 : UInt32).toNat := by decide
  ⟨(copiesMatrix_iff (by decide) (by decide) (by decide) (Vector.replicate matrixElems 5)).mpr hdvd, hdvd⟩

/-- A workload of 1000 in one block of 1024: threads 1000 to 1023 copy nothing. -/
theorem not_copiesMatrix_1000 : ¬CopiesMatrix 1000 1024 (Vector.replicate matrixElems 5) :=
  not_copiesMatrix (by decide) (by decide) (by decide) _ (by decide)

end Launches
end CryptixMiner.Launch
