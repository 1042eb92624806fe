import CryptixMiner.Client.Rig
import CryptixMiner.Theorems.CpuWorker
import CryptixMiner.Theorems.OpenClLaunch
import CryptixMiner.Theorems.Site

/-! What the threads read from their workers. A nonce that is read passes `check_pow` and lies in the partition of the
    job, so no thread ends on a wrong one, and what it hands over is a share of its own partition. -/

namespace CryptixMiner
open StepSystem

/-- A share carries the partition of its job. -/
def BlockSeed.InPartition {Block : Type} : BlockSeed Block → Prop
  | .fullBlock _ => True
  | .partialBlock _ _ _ nonce _ nonceMask nonceFixed _ => nonce = (nonce &&& nonceMask) ||| nonceFixed

namespace Miner

/-- The hash functions of the processor are the standard ones, and matrices are of nibbles. -/
structure Setting.Standard (E : Setting) : Prop where
  primitives : E.primitives.Standard
  generate : ∀ hash, (E.generate hash).Nibbles

/-- A CUDA launch is of whole blocks, an OpenCL launch of whole groups that read the matrix as it is. -/
def Device.Whole : Device → Prop
  | .cuda w => w.WholeBlocks
  | .openCl w => w.WholeGroups ∧ w.experimentalAmd = false

structure Rig.Whole (r : Rig) : Prop where
  device : ∀ k, (r.device k).Whole
  spare : ∀ k, (r.spare k).Whole

/-- "Something is wrong in GPU results!", after which the thread ends. -/
def GpuEvent.wrong : GpuEvent → Bool
  | .launched _ _ _ .wrongNonce => true
  | _ => false

def Thread.isGpu : Thread → Bool
  | .cpu _ => false
  | .gpu _ => true

/-- The thread never read a wrong nonce. -/
def Thread.Right : Thread → Prop
  | .cpu _ => True
  | .gpu g => ∀ e ∈ g.log, e.wrong = false

/-- With these threads on the GPU: none has read a wrong nonce, and every share that one of them has handed over is of
    its partition. -/
structure Site.Right (gpu : Nat → Bool) (x : Site) : Prop where
  kinds : ∀ k, (x.threads k).isGpu = gpu k
  threads : ∀ k, (x.threads k).Right
  handed : ∀ k b, .handed k b ∈ x.log → gpu k = true → b.InPartition

/-! ### A launch -/

section
variable {E : Setting} {seeds : BlockSeed RpcBlock → Prop} {s : State RpcBlock} {c : Chance} {d d' : Device}
  {nonce : UInt64}

theorem matrix_of_new {Block : Type} {B : Builder Block} {id : Nat} {seed : BlockSeed Block} {s : State Block}
    (h : State.new B id seed = .ok s) : ∃ hash, s.matrix = B.generate hash := by
  unfold State.new at h
  split at h
  · split at h
    · cases h
    · cases h
      exact ⟨_, rfl⟩
  · cases h
    exact ⟨_, rfl⟩

theorem Setting.Job.isJob (h : E.Job seeds s) (hE : E.Standard) : s.IsJob := by
  obtain ⟨id, seed, -, hnew⟩ := h
  have hnew := State.new_of_newOrPanic hnew
  obtain ⟨hash, hmatrix⟩ := matrix_of_new hnew
  exact ⟨hmatrix ▸ hE.generate hash, _, id, seed, hnew⟩

theorem cuda_found {w w' : Cuda.CudaGPUWorker} {nextU64 : UInt64} {uninit : Nat → Bytes 4096} {order : List Nat}
    (hw : w.WholeBlocks) (hE : E.Standard) (hjob : s.IsJob)
    (h : s.powCuda (s.loadToCuda w) nextU64 uninit order = some w') (hne : w'.copyOutputTo ≠ 0) :
    s.checkPow E.primitives E.useAvx2 w'.copyOutputTo = true ∧ InPartition s w'.copyOutputTo := by
  have hloaded : (s.loadToCuda w).WholeBlocks := ⟨hw.pos, hw.grid⟩
  obtain ⟨t, hrun, -, rfl⟩ := Cuda.CudaGPUWorker.calculateHash_eq_some h
  obtain ⟨gid, -, hnonce, hyes⟩ := (hloaded.kept (Reachable.of_run order hrun)).1.stored hne
  constructor
  · exact (hjob.cuda_verdict hE.primitives E.useAvx2 s.nonceMask s.nonceFixed _).symm.trans hyes
  · have hown := covers_iff.mp (covers_self s)
    exact hnonce ▸ hown _

/-- A launch of whole blocks comes to its end, and reads a nonce if a thread draws one that passes. -/
theorem cuda_exists {w : Cuda.CudaGPUWorker} (hw : w.WholeBlocks) (hE : E.Standard) (hjob : s.IsJob) (nextU64 : UInt64)
    (uninit : Nat → Bytes 4096) {gid : Nat} (hgid : gid < w.workload.toNat) (hne : s.cudaNonce w nextU64 gid ≠ 0)
    (hyes : s.checkPow E.primitives E.useAvx2 (s.cudaNonce w nextU64 gid) = true) :
    ∃ order nonce d, (Device.cuda w).launch s ⟨nextU64, uninit, order⟩ = some (nonce, d) ∧ nonce ≠ 0 := by
  have hloaded : (s.loadToCuda w).WholeBlocks := ⟨hw.pos, hw.grid⟩
  obtain ⟨order, w', h⟩ := Cuda.CudaGPUWorker.exists_order hloaded.pos s.nonceMask s.nonceFixed nextU64 uninit
  obtain ⟨t, hrun, hdone, rfl⟩ := Cuda.CudaGPUWorker.calculateHash_eq_some h
  have hverdict := hjob.cuda_verdict (w := w) hE.primitives E.useAvx2 s.nonceMask s.nonceFixed
    (s.cudaNonce w nextU64 gid)
  refine ⟨order, _, _, Option.map_eq_some_iff.mpr ⟨_, h, rfl⟩, ?_⟩
  exact (hloaded.taken_iff (Reachable.of_run order hrun) hdone).mpr ⟨gid, hloaded.grid ▸ hgid, hne, hverdict.trans hyes⟩

theorem openCl_found {w w' : OpenCl.LaunchingWorker} {nextU64 : UInt64} {uninit : Nat → Bytes 4096} {order : List Nat}
    (hw : w.WholeGroups) (hplain : w.experimentalAmd = false) (hE : E.Standard) (hjob : s.IsJob)
    (h : s.powOpenCl (s.loadToOpenCl w) nextU64 uninit order = some w') (hne : w'.copyOutputTo ≠ 0) :
    s.checkPow E.primitives E.useAvx2 w'.copyOutputTo = true ∧ InPartition s w'.copyOutputTo := by
  have hloaded : (s.loadToOpenCl w).WholeGroups := ⟨hw.pos, hw.dvd, hw.le⟩
  have hreads : OpenCl.ReadsMatrix (s.loadToOpenCl w).toOpenCLGPUWorker s.matrix := by
    refine OpenCl.readsMatrix_iff_bytes.mpr ?_
    simp only [State.loadToOpenCl, OpenCl.LaunchingWorker.loadBlockConstants,
      OpenCl.OpenCLGPUWorker.loadBlockConstants, hplain]
    exact OpenCl.writeBuffer_plain _
  obtain ⟨t, hrun, -, rfl⟩ := OpenCl.LaunchingWorker.calculateHash_eq_some h
  obtain ⟨gid, -, hnonce, hyes⟩ := (hloaded.kept rfl (Reachable.of_run order hrun)).1.stored hne
  constructor
  · exact (hjob.openCl_verdict hE.primitives E.useAvx2 hreads s.nonceMask s.nonceFixed _).symm.trans hyes
  · have hown := covers_iff.mp (covers_self s)
    exact hnonce ▸ hown _

/-- A nonce that a launch leaves in the cell passes, and is of the partition. -/
theorem Device.launch_found (hd : d.Whole) (hE : E.Standard) (hjob : s.IsJob) (h : d.launch s c = some (nonce, d')) :
    nonce ≠ 0 → s.checkPow E.primitives E.useAvx2 nonce = true ∧ InPartition s nonce := by
  cases d with
  | cuda w =>
    obtain ⟨w', hw', heq⟩ := Option.map_eq_some_iff.mp h
    cases heq
    exact cuda_found hd hE hjob hw'
  | openCl w =>
    obtain ⟨w', hw', heq⟩ := Option.map_eq_some_iff.mp h
    cases heq
    exact openCl_found hd.1 hd.2 hE hjob hw'

theorem Device.launch_whole (hd : d.Whole) (h : d.launch s c = some (nonce, d')) : d'.Whole := by
  cases d with
  | cuda w =>
    obtain ⟨w', hw', heq⟩ := Option.map_eq_some_iff.mp h
    cases heq
    obtain ⟨t, -, -, rfl⟩ := Cuda.CudaGPUWorker.calculateHash_eq_some hw'
    exact ⟨hd.pos, hd.grid⟩
  | openCl w =>
    obtain ⟨w', hw', heq⟩ := Option.map_eq_some_iff.mp h
    cases heq
    obtain ⟨t, -, -, rfl⟩ := OpenCl.LaunchingWorker.calculateHash_eq_some hw'
    exact ⟨⟨hd.1.pos, hd.1.dvd, hd.1.le⟩, hd.2⟩

theorem Device.wreck_whole (h : d.Whole) (left : Wreck) : (d.wreck left).Whole := by
  cases d with
  | cuda w => exact ⟨h.pos, h.grid⟩
  | openCl w => exact ⟨⟨h.1.pos, h.1.dvd, h.1.le⟩, h.2⟩

/-! ### A step of the rig -/

variable {r r' : Rig} {x y : Site} {k : Nat} {g : GpuWorker RpcBlock} {report : Report} {a : DeviceAction}

theorem Rig.Whole.setDevice (h : r.Whole) (hd : d.Whole) : (r.setDevice k d).Whole where
  device j := by
    simp only [Rig.setDevice, Function.update_apply]
    split
    · exact hd
    · exact h.device j
  spare := h.spare

/-- The workers stay as they are built, and what is read from one was found by a launch for the job. -/
theorem Rig.Whole.launch (h : r.Whole) (hstep : r.launch k g report a = some r') : r'.Whole ∧
    ∀ nonce, report = .cell nonce → ∃ s c d, g.state = some s ∧ (r.device k).launch s c = some (nonce, d) := by
  unfold Rig.launch at hstep
  split at hstep
  · next nonce s c hs =>
    split at hstep
    · next read d hlaunch =>
      obtain ⟨rfl, heq⟩ := Option.ite_none_right_eq_some.mp hstep
      cases heq
      exact ⟨h.setDevice (Device.launch_whole (h.device k) hlaunch), fun nonce' hreport => by
        cases hreport
        exact ⟨s, c, d, hs, hlaunch⟩⟩
    · cases hstep
  · cases hstep
  · next left hnot =>
    cases hstep
    refine ⟨h.setDevice ?_, fun nonce hreport => absurd hreport (hnot nonce)⟩
    split
    · exact h.spare k
    · exact Device.wreck_whole (h.device k) left
  · cases hstep

/-! ### A step of the threads -/

namespace Site
variable {b : BlockSeed RpcBlock} {t next dead : Thread} {gpu : Nat → Bool}

theorem start_right (kinds : Nat → UInt64 ⊕ Bool) : (start kinds).Right fun k => (kinds k).isRight := by
  refine ⟨fun k => ?_, fun k => ?_, fun k b hb => absurd hb List.not_mem_nil⟩
  · unfold start
    dsimp only
    cases kinds k <;> rfl
  · unfold start
    dsimp only
    split
    · trivial
    · exact fun e he => absurd he List.not_mem_nil

theorem Right.setThread (h : x.Right gpu) (ht : t.Right) (hkind : t.isGpu = gpu k) : (x.setThread k t).Right gpu := by
  refine ⟨fun j => ?_, fun j => ?_, h.handed⟩
  · simp only [Site.setThread, Function.update_apply]
    split
    · next hj => rw [hj, hkind]
    · exact h.kinds j
  · simp only [Site.setThread, Function.update_apply]
    split
    · exact ht
    · exact h.threads j

/-- Other events than that of a block do not count. -/
theorem Right.logged (h : x.Right gpu) {e : Event} (he : ∀ k b, e ≠ .handed k b) : ({ x with log := e :: x.log } : Site).Right gpu :=
  ⟨h.kinds, h.threads, fun k b hb => h.handed k b ((List.mem_cons.mp hb).resolve_left fun heq => he k b heq.symm)⟩

theorem Right.took (h : x.Right gpu) (k : Nat) (job : Bool) (ht : t.Right) (hkind : t.isGpu = gpu k) :
    ((x.took k job).setThread k t).Right gpu := by
  cases job with
  | false => exact h.setThread ht hkind
  | true => exact (h.logged (e := .took k) nofun).setThread ht hkind

theorem Right.handOver (h : x.Right gpu) (hnext : next.Right) (hdead : dead.Right)
    (hkinds : next.isGpu = gpu k ∧ dead.isGpu = gpu k)
    (hb : gpu k = true → b.InPartition) (hstep : x.handOver E k b next dead = some y) : y.Right gpu := by
  unfold Site.handOver at hstep
  split at hstep
  case isFalse =>
    cases hstep
    exact h.setThread hnext hkinds.1
  split at hstep
  case isFalse => cases hstep
  have hhanded : ({ x with queue := [b], log := .handed k b :: x.log } : Site).Right gpu := by
    refine ⟨h.kinds, h.threads, fun j c hc hgpu => ?_⟩
    rcases List.mem_cons.mp hc with heq | hc
    · cases heq
      exact hb hgpu
    · exact h.handed j c hc hgpu
  dsimp only at hstep
  split at hstep
  · cases hstep
    exact hhanded.setThread hnext hkinds.1
  · cases hstep
    exact (hhanded.logged (e := .panicked k (some b)) nofun).setThread hdead hkinds.2

theorem Right.cpu (h : x.Right gpu) {w : CpuWorker RpcBlock} (hk : x.threads k = .cpu w) {act : ThreadAction}
    (hstep : x.stepThread E k act = some y) : y.Right gpu := by
  have hkind (w' : CpuWorker RpcBlock) : (Thread.cpu w').isGpu = gpu k := by
    rw [← h.kinds k, hk]
    rfl
  unfold Site.stepThread at hstep
  rw [hk] at hstep
  split at hstep
  · next w' reply hw =>
    obtain ⟨action, -, hstep⟩ := Option.bind_eq_some_iff.mp hstep
    obtain ⟨w'', -, heq⟩ := Option.bind_eq_some_iff.mp hstep
    cases heq
    exact h.took k _ trivial (hkind w'')
  · next w' hw =>
    unfold Site.cpuHash at hstep
    split at hstep
    case h_2 => cases hstep
    split at hstep
    · cases hstep
      exact (h.logged (e := .panicked k none) nofun).setThread trivial (hkind _)
    · cases hstep
      exact h.setThread trivial (hkind _)
    · have hcpu (w' : CpuWorker RpcBlock) : (Thread.cpu w').Right := trivial
      refine h.handOver (hcpu _) (hcpu _) ⟨hkind _, hkind _⟩ (fun hgpu => ?_) hstep
      rw [← hkind w'] at hgpu
      cases hgpu
  · next hw => cases hw
  · next hw => cases hw
  · next hw => cases hw
  · cases hstep

/-- A launch that does not come to a wrong nonce. -/
theorem launch_right (hg : (Thread.gpu g).Right) {result : RunResult} (hne : result ≠ .wrongNonce) (builds : Bool) :
    (Thread.gpu (g.launch s result builds)).Right := by
  obtain ⟨-, ⟨hlog, -⟩ | ⟨hlog, -⟩⟩ := g.launch_cases s result builds
  · intro e he
    rw [hlog] at he
    rcases List.mem_cons.mp he with rfl | he
    · rfl
    · exact hg e he
  · intro e he
    rw [hlog] at he
    rcases List.mem_cons.mp he with rfl | he
    · cases result with
      | wrongNonce => exact absurd rfl hne
      | _ => rfl
    · exact hg e he

/-- The block that is made of a nonce of the partition is a share of the partition. -/
theorem inPartition_of_generate (hjob : E.Job seeds s) (hpart : InPartition s nonce)
    (h : E.generateBlockIfPow s nonce = some (some b)) : b.InPartition := by
  obtain ⟨id, seed, -, hnew⟩ := hjob
  rcases State.generateBlockIfPow_cases hnew nonce with ⟨hnone, -⟩ | ⟨-, b', hb', hsolves⟩
  · rw [hnone] at h
    cases h
  · rw [hb'] at h
    cases h
    have hnew := State.new_of_newOrPanic hnew
    cases hsolves.withNonce with
    | full header => trivial
    | share =>
      cases hnew
      exact hpart

/-- The nonce was read from the worker, so the host agrees with it. -/
theorem Right.gpuLaunch (h : x.Right gpu) (hx : x.Sound E seeds) (hE : E.Standard) (hr : r.Whole)
    (hk : x.threads k = .gpu g) {builds : Bool} (hrig : r.launch k g report a = some r')
    (hstep : x.gpuLaunch E k { g with channel := x.channel, senderAlive := x.senderAlive } report builds = some y) :
    y.Right gpu := by
  have hg : (Thread.gpu { g with channel := x.channel, senderAlive := x.senderAlive }).Right := by
    have hright := h.threads k
    rw [hk] at hright
    exact hright
  have hkind (g' : GpuWorker RpcBlock) : (Thread.gpu g').isGpu = gpu k := by
    rw [← h.kinds k, hk]
    rfl
  have hfound := (hr.launch hrig).2
  unfold Site.gpuLaunch at hstep
  split at hstep
  case h_2 => cases hstep
  next s hpc hs =>
  have hjob : E.Job seeds s := hx.threads k s (by rw [hk]; exact hs)
  have hnext (result : RunResult) (hne : result ≠ .wrongNonce) := launch_right (s := s) hg hne builds
  dsimp only at hstep
  split at hstep
  · cases hstep
    exact h.setThread (hnext .panicked nofun) (hkind _)
  · cases hstep
    exact h.setThread (hnext .syncError nofun) (hkind _)
  · cases hstep
    exact h.setThread (hnext .outputError nofun) (hkind _)
  next nonce =>
  split at hstep
  · cases hstep
    exact h.setThread (hnext .noNonce nofun) (hkind _)
  next hne =>
  obtain ⟨s', c, d, hs', hlaunch⟩ := hfound nonce rfl
  obtain rfl : s' = s := Option.some.inj (hs'.symm.trans hs)
  obtain ⟨hpow, hpart⟩ := Device.launch_found (hr.device k) hE (hjob.isJob hE) hlaunch hne
  split at hstep
  · cases hstep
    exact (h.logged (e := .panicked k none) nofun).setThread hg (hkind _)
  · next hnone =>
    obtain ⟨id, seed, -, hnew⟩ := hjob
    rcases State.generateBlockIfPow_cases hnew nonce with ⟨-, hno⟩ | ⟨-, b, hb, -⟩
    · rw [hpow] at hno
      cases hno
    · rw [hb] at hnone
      cases hnone
  · next b hb =>
    refine h.handOver (hnext .share nofun) ?_ ⟨hkind _, hkind _⟩ (fun _ => inPartition_of_generate hjob hpart hb) hstep
    exact hg

theorem Right.gpuChannel (h : x.Right gpu) (hk : x.threads k = .gpu g)
    (hstep : x.gpuChannel k { g with channel := x.channel, senderAlive := x.senderAlive } = some y) : y.Right gpu := by
  have hg : ∀ e ∈ g.log, e.wrong = false := by
    have hright := h.threads k
    rw [hk] at hright
    exact hright
  unfold Site.gpuChannel at hstep
  split at hstep
  · cases hstep
  next hnolaunch =>
  obtain ⟨g', hg', rfl⟩ := Option.map_eq_some_iff.mp hstep
  refine h.took k _ (fun e he => ?_) (by rw [← h.kinds k, hk]; rfl)
  rcases GpuWorker.step_cases hg' with ⟨cmd, rfl⟩ | rfl | rfl | ⟨-, rfl⟩ | ⟨-, -, rfl⟩ | ⟨-, rfl⟩ |
    ⟨s, result, builds, hpc, hs, -⟩
  · exact hg e he
  · exact hg e he
  · exact hg e he
  · rcases List.mem_cons.mp he with rfl | he
    · rfl
    · exact hg e he
  · rcases List.mem_cons.mp he with rfl | he
    · rfl
    · exact hg e he
  · unfold GpuWorker.receive at he
    split at he <;> exact hg e he
  · exact absurd hs (hnolaunch s hpc)

theorem Right.gpuUnwind (h : x.Right gpu) (hk : x.threads k = .gpu g) (hstep : x.gpuUnwind k g = some y) :
    y.Right gpu := by
  have hg : (Thread.gpu g).Right := by
    have hright := h.threads k
    rwa [hk] at hright
  unfold Site.gpuUnwind at hstep
  split at hstep <;> cases hstep
  exact (h.logged (e := .unwound k) nofun).setThread hg (by rw [← h.kinds k, hk]; rfl)

theorem Right.step (h : x.Right gpu) (hx : x.Sound E seeds) (hE : E.Standard) (hr : r.Whole) {connected : Bool}
    {act : SiteAction} (hstep : x.step E connected act = some y) (hrig : r.step x a act = some r') : y.Right gpu := by
  cases act with
  | thread k act =>
    cases hk : x.threads k with
    | cpu w => exact h.cpu hk hstep
    | gpu g =>
      simp only [Site.step, stepThread, hk] at hstep
      cases act with
      | reply reply => cases hstep
      | hash => cases hstep
      | launch report builds =>
        simp only [Rig.step, hk] at hrig
        exact h.gpuLaunch hx hE hr hk hrig hstep
      | channel => exact h.gpuChannel hk hstep
      | unwind => exact h.gpuUnwind hk hstep
  | drop delivered =>
    obtain ⟨-, heq⟩ := Option.ite_none_left_eq_some.mp hstep
    cases heq
    unfold Site.drop
    dsimp only
    split <;> exact ⟨h.kinds, h.threads, h.handed⟩
  | dropSender =>
    obtain ⟨-, heq⟩ := Option.ite_none_left_eq_some.mp hstep
    cases heq
    exact ⟨h.kinds, h.threads, h.handed⟩
  | closeQueue =>
    cases hstep
    exact ⟨h.kinds, h.threads, h.handed⟩

theorem Right.process (h : x.Right gpu) (delivered : Bool) (block : Option (BlockSeed RpcBlock)) :
    (x.process E delivered block).2.Right gpu := by
  unfold Site.process
  dsimp only
  split <;> exact ⟨h.kinds, h.threads, h.handed⟩

theorem Right.forward (h : x.Right gpu) (hstep : x.forward = some (b, y)) : y.Right gpu := by
  unfold Site.forward at hstep
  split at hstep
  · next b' rest hqueue =>
    cases hstep
    exact ⟨h.kinds, h.threads, fun k c hc => h.handed k c ((List.mem_cons.mp hc).resolve_left nofun)⟩
  · cases hstep

/-- What waits in the queue was handed over by a thread. -/
theorem Sound.handed_of_mem_queue (h : x.Sound E seeds) (hb : b ∈ x.queue) : ∃ k, .handed k b ∈ x.log := by
  obtain ⟨lost, hhanded, -⟩ := h.ordered
  have hmem : b ∈ x.handed := by
    rw [hhanded]
    exact List.mem_append_left lost (List.mem_append_right _ hb)
  obtain ⟨e, he, heq⟩ := List.mem_filterMap.mp (List.mem_reverse.mp hmem)
  cases e with
  | handed k c =>
    cases heq
    exact ⟨k, he⟩
  | _ => cases heq

/-! ### A thread that finds a nonce -/

/-- The block of a nonce that passes goes to the queue. -/
theorem gpuLaunch_share (hpc : g.pc = .head) (hs : g.state = some s) (hne : nonce ≠ 0)
    (hb : E.generateBlockIfPow s nonce = some (some b)) (hopen : x.queueOpen = true) (hqueue : x.queue = [])
    (hreport : (b.reportBlock E.digest E.date).isSome) (builds : Bool) :
    x.gpuLaunch E k g (.cell nonce) builds = some ({ x with queue := [b], log := .handed k b :: x.log }.setThread k
      (.gpu (g.launch s .share builds))) := by
  obtain ⟨text, htext⟩ := Option.isSome_iff_exists.mp hreport
  simp only [gpuLaunch, hpc, hs, if_neg hne, hb, handOver, hopen, if_true, hqueue, htext]

/-- Where every date is in the calendar, a thread that draws a nonce which passes comes to hand a block over. -/
theorem Sound.exists_share {w : Cuda.CudaGPUWorker} (h : x.Sound E seeds) (hE : E.Standard) (hr : r.Whole)
    (hk : x.threads k = .gpu g) (hpc : g.pc = .head) (hs : g.state = some s) (hdevice : r.device k = .cuda w)
    (hopen : x.queueOpen = true) (hqueue : x.queue = []) (hdate : ∀ t, E.date t ≠ none) (nextU64 : UInt64)
    (uninit : Nat → Bytes 4096) {gid : Nat} (hgid : gid < w.workload.toNat) (hne : s.cudaNonce w nextU64 gid ≠ 0)
    (hyes : s.checkPow E.primitives E.useAvx2 (s.cudaNonce w nextU64 gid) = true) (connected builds : Bool) :
    ∃ order nonce b y r', x.step E connected (.thread k (.launch (.cell nonce) builds)) = some y ∧
      r.step x (.completes ⟨nextU64, uninit, order⟩) (.thread k (.launch (.cell nonce) builds)) = some r' ∧
      y.queue = [b] ∧ E.Found seeds b ∧ y.threads k =
        .gpu ({ g with channel := x.channel, senderAlive := x.senderAlive }.launch s .share builds) := by
  have hjob : E.Job seeds s := h.threads k s (by rw [hk]; exact hs)
  have hwhole : w.WholeBlocks := by
    have hdev := hr.device k
    rwa [hdevice] at hdev
  obtain ⟨order, nonce, d, hlaunch, hnonce⟩ := cuda_exists hwhole hE (hjob.isJob hE) nextU64 uninit hgid hne hyes
  have hpow := (Device.launch_found (d := .cuda w) hwhole hE (hjob.isJob hE) hlaunch hnonce).1
  obtain ⟨id, seed, hseed, hnew⟩ := hjob
  rcases State.generateBlockIfPow_cases hnew nonce with ⟨-, hno⟩ | ⟨-, b, hb, hsolves⟩
  · rw [hpow] at hno
    cases hno
  have hreport : (b.reportBlock E.digest E.date).isSome := by
    cases htext : b.reportBlock E.digest E.date with
    | some text => rfl
    | none =>
      obtain ⟨-, header, -, -, hnone⟩ := hsolves.reportBlock htext
      exact absurd hnone (hdate _)
  have hstep := gpuLaunch_share (x := x) (k := k)
    (g := { g with channel := x.channel, senderAlive := x.senderAlive }) hpc hs hnonce hb hopen hqueue hreport builds
  refine ⟨order, nonce, b, _, r.setDevice k d, Eq.trans ?_ hstep, ?_, rfl, ⟨seed, nonce, hseed, hsolves⟩,
    Function.update_self ..⟩
  · simp only [Site.step, Site.stepThread, hk]
  · simp only [Rig.step, hk, Rig.launch, hs, hdevice, hlaunch, if_true]

end Site

theorem Rig.Whole.step (h : r.Whole) {act : SiteAction} (hrig : r.step x a act = some r') : r'.Whole := by
  unfold Rig.step at hrig
  split at hrig
  · split at hrig
    · exact (h.launch hrig).1
    · cases hrig
  · cases hrig
    exact h

end
end Miner
end CryptixMiner
