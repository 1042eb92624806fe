import CryptixMiner.Lib.StepSystem
import Mathlib.Algebra.BigOperators.Group.Finset.Basic
import Mathlib.Algebra.Order.BigOperators.Group.Finset

/-! Threads that fill a common array together. Each copies a chunk, moves on by the number of threads, and
    stops past the end; some may not take part. A step is one round of one thread's loop. -/

namespace StridedCopy
open StepSystem

/-- The threads below `dim`; those with `goesOn` copy chunks of `chunk` cells. -/
structure Group (α : Type*) (n : Nat) where
  dim : Nat
  goesOn : Nat → Bool
  chunk : Nat
  chunk_pos : 0 < chunk
  src : Vector α n

/-- The array that is filled, and the next chunk of each thread. -/
structure State (α : Type*) (n : Nat) where
  dst : Vector α n
  idx : Nat → Nat

namespace Group
variable {α : Type*} {n : Nat}

def start (uninit : Vector α n) : State α n := { dst := uninit, idx := id }

def copyChunk (g : Group α n) (i : Nat) (dst : Vector α n) : Vector α n :=
  Vector.ofFn fun k => if k.val / g.chunk = i then g.src.get k else dst.get k

def step (g : Group α n) (s : State α n) (tid : Nat) : Option (State α n) :=
  if tid < g.dim ∧ g.goesOn tid ∧ s.idx tid * g.chunk < n then
    some { dst := g.copyChunk (s.idx tid) s.dst, idx := Function.update s.idx tid (s.idx tid + g.dim) }
  else none

/-- Every thread that copies has left its loop. -/
def AtBarrier (g : Group α n) (s : State α n) : Prop :=
  ∀ tid, tid < g.dim → g.goesOn tid = true → n ≤ s.idx tid * g.chunk

section Run
variable {g : Group α n} {uninit : Vector α n} {s s' : State α n} {tid j : Nat}

theorem getElem_copyChunk {i : Nat} {dst : Vector α n} (hj : j < n) :
    (g.copyChunk i dst)[j] = if j / g.chunk = i then g.src[j] else dst[j] := by
  rw [copyChunk, Vector.getElem_ofFn]
  rfl

theorem step_eq_some : g.step s tid = some s' ↔
    (tid < g.dim ∧ g.goesOn tid = true ∧ s.idx tid * g.chunk < n) ∧
      s' = { dst := g.copyChunk (s.idx tid) s.dst, idx := Function.update s.idx tid (s.idx tid + g.dim) } := by
  unfold step
  rw [Option.ite_none_right_eq_some, Option.some.injEq, eq_comm (a := s')]

/-- Each thread is at a chunk of its own residue class, and has copied those below it. -/
structure Copied (g : Group α n) (uninit : Vector α n) (s : State α n) : Prop where
  idx_mod : ∀ tid, tid < g.dim → s.idx tid % g.dim = tid
  copied : ∀ j (hj : j < n), g.goesOn (j / g.chunk % g.dim) = true → j / g.chunk < s.idx (j / g.chunk % g.dim) →
    s.dst[j] = g.src[j]
  left : ∀ j (hj : j < n), ¬g.goesOn (j / g.chunk % g.dim) = true → s.dst[j] = uninit[j]

/-- Below the next chunk of a residue class there is nothing new but the present one. -/
theorem lt_add_iff {i m : Nat} (hm : 0 < m) (h : j % m = i % m) : j < i + m ↔ j < i ∨ j = i := by
  constructor
  · intro hlt
    rcases Nat.lt_or_ge j i with hji | hij
    · exact .inl hji
    · have hzero : (j - i) % m = 0 := Nat.sub_mod_eq_zero_of_mod_eq h
      rw [Nat.mod_eq_of_lt (by omega)] at hzero
      exact .inr (by omega)
  · rintro (hlt | rfl) <;> omega

theorem start_copied : g.Copied uninit (start uninit) where
  idx_mod _ htid := Nat.mod_eq_of_lt htid
  copied _ _ _ hlt := absurd hlt (Nat.not_lt.mpr (Nat.mod_le _ _))
  left _ _ _ := rfl

theorem Copied.kept (h : g.Copied uninit s) (hs : g.step s tid = some s') : g.Copied uninit s' := by
  obtain ⟨⟨htid, hgo, -⟩, rfl⟩ := step_eq_some.mp hs
  have hpos : 0 < g.dim := Nat.zero_lt_of_lt htid
  refine ⟨fun t ht => ?_, fun j hj hjgo hlt => ?_, fun j hj hjno => ?_⟩ <;> dsimp only at *
  · rw [Function.update_apply]
    split
    · next heq =>
      rw [Nat.add_mod_right, h.idx_mod tid htid, heq]
    · exact h.idx_mod t ht
  · rw [getElem_copyChunk hj]
    split
    · rfl
    · next hnow =>
      refine h.copied j hj hjgo ?_
      rw [Function.update_apply] at hlt
      split at hlt
      · next hclass =>
        rw [hclass]
        have hmod : j / g.chunk % g.dim = s.idx tid % g.dim := hclass.trans (h.idx_mod tid htid).symm
        exact ((lt_add_iff hpos hmod).mp hlt).resolve_right hnow
      · exact hlt
  · have hnow : j / g.chunk ≠ s.idx tid := by
      intro heq
      rw [heq, h.idx_mod tid htid] at hjno
      exact hjno hgo
    rw [getElem_copyChunk hj, if_neg hnow]
    exact h.left j hj hjno

/-- At the barrier, the cells of the classes whose threads went on are those of the source, and the others
    what the array held. -/
theorem dst_at_barrier (hdim : 0 < g.dim) (h : Reachable g.step (start uninit) s) (hdone : g.AtBarrier s)
    (hj : j < n) : s.dst[j] = if g.goesOn (j / g.chunk % g.dim) = true then g.src[j] else uninit[j] := by
  have hcopied : g.Copied uninit s := h.inv start_copied fun _ _ _ hs _ hstep => hs.kept hstep
  split
  · next hgo =>
    have hle := hdone _ (Nat.mod_lt (j / g.chunk) hdim) hgo
    exact hcopied.copied j hj hgo ((Nat.div_lt_iff_lt_mul g.chunk_pos).mpr (Nat.lt_of_lt_of_le hj hle))
  · next hno => exact hcopied.left j hj hno

/-- When every thread takes part, the array at the barrier is the source. -/
theorem dst_eq_src (hdim : 0 < g.dim) (hall : ∀ tid, g.goesOn tid = true) (h : Reachable g.step (start uninit) s)
    (hdone : g.AtBarrier s) : s.dst = g.src :=
  Vector.ext fun _ hj => (dst_at_barrier hdim h hdone hj).trans (if_pos (hall _))

/-- The copying ends: the threads can get to the barrier. -/
theorem exists_barrier (g : Group α n) (hdim : 0 < g.dim) (uninit : Vector α n) :
    ∃ as s, run g.step (start uninit) as = some s ∧ g.AtBarrier s := by
  obtain ⟨as, s, hrun, -, hdone⟩ := exists_run g.step (s := start uninit) (fun _ => True)
    g.AtBarrier (fun s => ∑ tid ∈ Finset.range g.dim, (n - s.idx tid * g.chunk))
    (fun s _ hnot => by
      simp only [AtBarrier, not_forall, Nat.not_le] at hnot
      obtain ⟨tid, htid, hgo, hlt⟩ := hnot
      refine ⟨tid, _, step_eq_some.mpr ⟨⟨htid, hgo, hlt⟩, rfl⟩, trivial, ?_⟩
      have hmore : s.idx tid * g.chunk < (s.idx tid + g.dim) * g.chunk :=
        Nat.mul_lt_mul_of_pos_right (Nat.lt_add_of_pos_right hdim) g.chunk_pos
      refine Finset.sum_lt_sum (fun t _ => ?_) ⟨tid, Finset.mem_range.mpr htid, ?_⟩ <;> dsimp only
      · rw [Function.update_apply]
        split
        · next heq =>
          rw [heq]
          omega
        · exact Nat.le_refl _
      · rw [Function.update_self]
        omega)
    trivial
  exact ⟨as, s, hrun, hdone⟩

end Run
end Group
end StridedCopy
