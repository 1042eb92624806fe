import CryptixMiner.Theorems.CudaLaunch
import CryptixMiner.Theorems.ThreadSeeds

/-! What the threads of a device draw over many launches with xoshiro. A thread draws once in a launch that finds
    nothing, and at most once in any other, so its nonces come from one stream with no gap; the streams start from
    different states, and as long as nothing is found all threads are equally far. -/

namespace CryptixMiner.Cuda
open StepSystem Launch Grid Xoshiro256StarStar

section Launch
variable {w w' : CudaGPUWorker} {mask fixed nextU64 : UInt64} {uninit : Nat → Bytes matrixElems} {order : List Nat}
  {gid : Nat}

/-- The state that a draw leaves. -/
def drawn (s : Ulonglong4) : Ulonglong4 := (xoshiro256Next s).2

theorem toUlonglong4_step (g : Xoshiro256StarStar) : toUlonglong4 g.step = drawn (toUlonglong4 g) := by
  refine Ulonglong4.quad_inj ?_
  exact quad_nextU64 g

theorem toUlonglong4_step_iterate (n : Nat) (g : Xoshiro256StarStar) :
    toUlonglong4 (step^[n] g) = drawn^[n] (toUlonglong4 g) :=
  (Function.Semiconj.iterate_right (f := toUlonglong4) toUlonglong4_step n) g

theorem toUlonglong4_inj {g h : Xoshiro256StarStar} (heq : toUlonglong4 g = toUlonglong4 h) : g = h :=
  quad_inj (congrArg Ulonglong4.quad heq)

theorem writtenStates_xoshiro (hx : w.random = .xoshiro) (nextU64 : UInt64) : w.writtenStates nextU64 = w.randState := by
  rw [CudaGPUWorker.writtenStates, hx]

/-- A thread draws once, or not at all, and not at all only where the cell is taken in the end. -/
theorem calculateHash_loadState (hw : w.WholeBlocks) (hx : w.random = .xoshiro)
    (h : w.calculateHash mask fixed nextU64 uninit order = some w') (hgid : gid < w.workload.toNat) :
    loadState w'.randState gid = drawn (loadState w.randState gid) ∨
      (w'.copyOutputTo ≠ 0 ∧ loadState w'.randState gid = loadState w.randState gid) := by
  have hrt : (w.args mask fixed).randomType ≠ RANDOM_LEAN := by
    rw [CudaGPUWorker.args, hx]
    exact (by decide : NonceGenEnum.xoshiro.randomType ≠ RANDOM_LEAN)
  obtain ⟨t, hrun, hdone, rfl⟩ := CudaGPUWorker.calculateHash_eq_some h
  have hclaim := (hw.kept (Reachable.of_run order hrun)).2 gid
  rw [hdone gid (hw.grid.symm ▸ hgid), writtenStates_xoshiro hx] at hclaim
  obtain ⟨hfirst, huntouched | hadvanced⟩ := hclaim
  · rcases hfirst with htaken | ⟨-, hadvanced, -⟩
    · exact Or.inr ⟨htaken, huntouched hrt⟩
    · exact Or.inl (hadvanced hrt)
  · exact Or.inl (hadvanced hrt)

theorem calculateHash_config (h : w.calculateHash mask fixed nextU64 uninit order = some w') :
    w'.random = w.random ∧ w'.workload = w.workload ∧ w'.blockSize = w.blockSize ∧ w'.gridSize = w.gridSize := by
  obtain ⟨t, -, -, rfl⟩ := CudaGPUWorker.calculateHash_eq_some h
  exact ⟨rfl, rfl, rfl, rfl⟩

end Launch

/-! ### Many launches -/

section Launches
variable {Block : Type} {l l' : Launches} {w : CudaGPUWorker} {as : List (LaunchFor Block)} {gid : Nat}

/-- Where the generators stand after some launches of worker `w`. -/
structure Streams (w : CudaGPUWorker) (l : Launches) : Prop where
  whole : l.worker.WholeBlocks
  random : l.worker.random = .xoshiro
  workload : l.worker.workload = w.workload
  quiet_le : l.quiet ≤ l.launches
  streams : ∀ gid, gid < w.workload.toNat → ∃ c, l.quiet ≤ c ∧ c ≤ l.launches ∧
    loadState l.worker.randState gid = drawn^[c] (loadState w.randState gid)

/-- The next launch draws once for a thread, or finds something. -/
theorem Streams.next {a : LaunchFor Block} (h : Streams w l) (hstep : l.step a = some l') (hgid : gid < w.workload.toNat) :
    loadState l'.worker.randState gid = drawn (loadState l.worker.randState gid) ∨
      (l'.worker.copyOutputTo ≠ 0 ∧ loadState l'.worker.randState gid = loadState l.worker.randState gid) := by
  obtain ⟨w', hw', rfl⟩ := Option.map_eq_some_iff.mp hstep
  have hloaded : (a.job.loadToCuda l.worker).WholeBlocks := ⟨h.whole.pos, h.whole.grid⟩
  have hgid' : gid < (a.job.loadToCuda l.worker).workload.toNat := by
    rw [← h.workload] at hgid
    exact hgid
  have hcase := calculateHash_loadState hloaded h.random hw' hgid'
  exact hcase

theorem Streams.kept {a : LaunchFor Block} (h : Streams w l) (hstep : l.step a = some l') : Streams w l' := by
  have hnext {gid : Nat} (hgid : gid < w.workload.toNat) := h.next hstep hgid
  obtain ⟨w', hw', rfl⟩ := Option.map_eq_some_iff.mp hstep
  obtain ⟨hrandom, hworkload, hblock, hgrid⟩ := calculateHash_config hw'
  refine ⟨⟨?_, ?_⟩, hrandom.trans h.random, hworkload.trans h.workload, ?_, fun gid hgid => ?_⟩
  · rw [hblock]
    exact h.whole.pos
  · rw [CudaGPUWorker.threads, hgrid, hblock, hworkload]
    exact h.whole.grid
  · have hle := h.quiet_le
    dsimp only
    split <;> omega
  · obtain ⟨c, hquiet, hle, hc⟩ := h.streams gid hgid
    rcases hnext hgid with hdrawn | ⟨hfound, hkept⟩
    · refine ⟨c + 1, ?_, Nat.succ_le_succ hle, ?_⟩
      · dsimp only
        split <;> omega
      · rw [Function.iterate_succ_apply', ← hc]
        exact hdrawn
    · refine ⟨c, ?_, Nat.le_succ_of_le hle, hkept.trans hc⟩
      dsimp only
      rw [if_neg hfound]
      exact hquiet

theorem Streams.run (h : Streams w l) (hrun : run Launches.step l as = some l') : Streams w l' :=
  (Reachable.of_run as hrun).inv h fun _ _ _ hl _ hstep => hl.kept hstep

theorem seedBuffer_word (seed : Vector UInt64 4) {n : Nat} (hgid : gid < n) {k : Nat} (hk : k < 4) :
    CudaGPUWorker.seedBuffer seed n (4 * gid + k) = (longJump^[gid + 1] (new seed)).state[k]! := by
  have htake : ((new seed).iterJumpState.take n)[gid]? = some (longJump^[gid + 1] (new seed)).state := by
    have hlist : (new seed).iterJumpState.take n = (List.range n).map fun i => (longJump^[i + 1] (new seed)).state :=
      take_iterJumpState n _
    rw [hlist, List.getElem?_map, List.getElem?_range hgid, Option.map_some]
  rw [CudaGPUWorker.seedBuffer, List.getD_eq_getElem?_getD,
    Loop.getElem?_flatMap_of_length (f := Vector.toList) (c := 4) (fun s : Vector UInt64 4 => s.length_toList) hk, htake]
  generalize (longJump^[gid + 1] (new seed)).state = state
  simp [hk]

theorem loadState_seedBuffer (seed : Vector UInt64 4) {n : Nat} (hgid : gid < n) :
    loadState (CudaGPUWorker.seedBuffer seed n) gid = toUlonglong4 (longJump^[gid + 1] (new seed)) := by
  have hword {k : Nat} (hk : k < 4) := seedBuffer_word seed hgid hk
  generalize CudaGPUWorker.seedBuffer seed n = buffer at hword ⊢
  generalize longJump^[gid + 1] (new seed) = g at hword ⊢
  have h0 : buffer (4 * gid) = g.state[0]! := hword (k := 0) (by decide)
  have h1 : buffer (4 * gid + 1) = g.state[1]! := hword (k := 1) (by decide)
  have h2 : buffer (4 * gid + 2) = g.state[2]! := hword (k := 2) (by decide)
  have h3 : buffer (4 * gid + 3) = g.state[3]! := hword (k := 3) (by decide)
  rw [loadState, h0, h1, h2, h3, toUlonglong4]

end Launches

/-- From the seeds on, after any launches for any jobs in any order: each thread has drawn some times from its own
    stream, one draw after the other, at least once for every launch that found nothing and at most once for each;
    the next launch draws once more, unless it finds something and leaves the thread where it is; and if nothing was
    found so far, no two threads stand at the same state. -/
theorem xoshiro_streams {Block : Type} {w : CudaGPUWorker} (hw : w.WholeBlocks) (hx : w.random = .xoshiro)
    {seed : Vector UInt64 4} (hseed : seed ≠ Vector.replicate 4 0)
    (hbuffer : w.randState = CudaGPUWorker.seedBuffer seed w.workload.toNat) {as : List (LaunchFor Block)}
    {l : Launches} (hrun : run Launches.step ⟨w, 0, 0⟩ as = some l) :
    (∀ gid, gid < w.workload.toNat → ∃ c, l.quiet ≤ c ∧ c ≤ l.launches ∧
      loadState l.worker.randState gid = toUlonglong4 (step^[c] (longJump^[gid + 1] (new seed))) ∧
      ∀ (a : LaunchFor Block) l', l.step a = some l' →
        loadState l'.worker.randState gid = toUlonglong4 (step^[c + 1] (longJump^[gid + 1] (new seed))) ∨
          (l'.worker.copyOutputTo ≠ 0 ∧
            loadState l'.worker.randState gid = toUlonglong4 (step^[c] (longJump^[gid + 1] (new seed))))) ∧
    (l.quiet = l.launches → ∀ gid, gid < w.workload.toNat → ∀ gid', gid' < w.workload.toNat →
      loadState l.worker.randState gid = loadState l.worker.randState gid' → gid = gid') := by
  have hstreams : Streams w l := Streams.run ⟨hw, hx, rfl, Nat.le_refl 0, fun gid _ => ⟨0, Nat.le_refl 0, Nat.le_refl 0, rfl⟩⟩
    hrun
  have hstate : ∀ gid, gid < w.workload.toNat → ∃ c, l.quiet ≤ c ∧ c ≤ l.launches ∧
      loadState l.worker.randState gid = toUlonglong4 (step^[c] (longJump^[gid + 1] (new seed))) := fun gid hgid => by
    obtain ⟨c, hquiet, hle, hc⟩ := hstreams.streams gid hgid
    refine ⟨c, hquiet, hle, ?_⟩
    rw [hc, hbuffer, loadState_seedBuffer seed hgid, toUlonglong4_step_iterate]
  refine ⟨fun gid hgid => ?_, fun hnone gid hgid gid' hgid' heq => ?_⟩
  · obtain ⟨c, hquiet, hle, hc⟩ := hstate gid hgid
    refine ⟨c, hquiet, hle, hc, fun a l' hstep => ?_⟩
    rw [Function.iterate_succ_apply', toUlonglong4_step, ← hc]
    exact hstreams.next hstep hgid
  · obtain ⟨c, hquiet, hle, hc⟩ := hstate gid hgid
    obtain ⟨c', hquiet', hle', hc'⟩ := hstate gid' hgid'
    obtain rfl : c = c' := by omega
    have hcycle {i : Nat} (hi : i < w.workload.toNat) : i < 2 ^ 256 - 1 :=
      Nat.lt_trans (Nat.lt_trans hi w.workload.toNat_lt) (by decide)
    exact draws_injOn (g := new seed) hseed c (hcycle hgid) (hcycle hgid')
      (toUlonglong4_inj (hc.symm.trans (heq.trans hc')))

/-- Four threads in two blocks, each with a stream of its own. -/
def twoBlocksXoshiro : CudaGPUWorker :=
  { twoBlocks with random := .xoshiro, randState := CudaGPUWorker.seedBuffer (Vector.replicate 4 1) 4 }

/-- A worker whose threads can be launched is launched for the job. -/
theorem exists_launch {Block : Type} {l : Launches} (hpos : 0 < l.worker.blockSize.toNat) (s : State Block)
    (nextU64 : UInt64) (uninit : Nat → Bytes matrixElems) : ∃ order l', l.step ⟨s, nextU64, uninit, order⟩ = some l' := by
  obtain ⟨order, w', h⟩ := CudaGPUWorker.exists_order (w := s.loadToCuda l.worker) hpos s.nonceMask s.nonceFixed nextU64 uninit
  exact ⟨order, _, Option.map_eq_some_iff.mpr ⟨w', h, rfl⟩⟩

/-- Two launches, one after the other, for a job that nonces meet. -/
theorem xoshiro_streams_two :
    (∀ gid, gid < 4 → ∀ gid', gid' < 4 →
      loadState twoBlocksXoshiro.randState gid = loadState twoBlocksXoshiro.randState gid' → gid = gid') ∧
    ∃ first second l l', run Launches.step ⟨twoBlocksXoshiro, 0, 0⟩ [first] = some l ∧ l.step second = some l' ∧
      first.job = Miner.easyJob 0xff 0x100 ∧ second.job = Miner.easyJob 0xff 0x100 ∧
      ∀ gid, gid < 4 → ∃ c, l.quiet ≤ c ∧ c ≤ 1 ∧
        loadState l.worker.randState gid = toUlonglong4 (step^[c] (longJump^[gid + 1] (new (Vector.replicate 4 1)))) ∧
        (loadState l'.worker.randState gid =
            toUlonglong4 (step^[c + 1] (longJump^[gid + 1] (new (Vector.replicate 4 1)))) ∨
          l'.worker.copyOutputTo ≠ 0 ∧ loadState l'.worker.randState gid =
            toUlonglong4 (step^[c] (longJump^[gid + 1] (new (Vector.replicate 4 1))))) := by
  have hwhole : twoBlocksXoshiro.WholeBlocks := ⟨by decide, by decide⟩
  have hbuffer : twoBlocksXoshiro.randState =
      CudaGPUWorker.seedBuffer (Vector.replicate 4 1) twoBlocksXoshiro.workload.toNat := by
    have hworkload : twoBlocksXoshiro.workload.toNat = 4 := by decide
    rw [hworkload, twoBlocksXoshiro]
  have hstreams {as : List (LaunchFor Unit)} {l : Launches} (hrun : run Launches.step ⟨twoBlocksXoshiro, 0, 0⟩ as = some l) :=
    xoshiro_streams hwhole rfl (by decide) hbuffer hrun
  obtain ⟨order, l, hl⟩ := exists_launch (l := ⟨twoBlocksXoshiro, 0, 0⟩) hwhole.pos (Miner.easyJob 0xff 0x100) 5
    fun _ => Vector.replicate 4096 1
  have hrun : run Launches.step ⟨twoBlocksXoshiro, 0, 0⟩
      [⟨Miner.easyJob 0xff 0x100, 5, fun _ => Vector.replicate 4096 1, order⟩] = some l := run_cons_iff.mpr ⟨l, hl, rfl⟩
  obtain ⟨w', hw', rfl⟩ := Option.map_eq_some_iff.mp hl
  obtain ⟨-, -, hblock, -⟩ := calculateHash_config hw'
  obtain ⟨order', l', hl'⟩ := exists_launch (l := ⟨w', 1, if w'.copyOutputTo = 0 then 1 else 0⟩)
    (by rw [hblock]; exact hwhole.pos) (Miner.easyJob 0xff 0x100) 7 fun _ => Vector.replicate 4096 1
  have hnone : run Launches.step ⟨twoBlocksXoshiro, 0, 0⟩ ([] : List (LaunchFor Unit)) = some ⟨twoBlocksXoshiro, 0, 0⟩ := rfl
  refine ⟨(hstreams hnone).2 rfl, _, _, _, l', hrun, hl', rfl, rfl, fun gid hgid => ?_⟩
  obtain ⟨c, hquiet, hle, hc, hnext⟩ := (hstreams hrun).1 gid hgid
  exact ⟨c, hquiet, hle, hc, hnext _ l' hl'⟩

end CryptixMiner.Cuda
