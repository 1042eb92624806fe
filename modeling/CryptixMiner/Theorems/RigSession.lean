import CryptixMiner.Theorems.Rig
import CryptixMiner.Theorems.Submission

/-! The clients with GPU threads and their workers: no thread ends on a wrong nonce, and the shares that a pool gets are
    of the partition that its extranonce leaves to the miner. -/

namespace CryptixMiner
open StepSystem
open Miner (Setting Rig RigAction)

/-! ### Workers of both kinds -/

namespace Miner

/-- The hash functions of the kernels, with a matrix of zeros. -/
def kernelHashes : Setting :=
  { zeroHashes with primitives := Cuda.primitives }

theorem kernelHashes_standard : kernelHashes.Standard where
  primitives := Cuda.primitives_standard
  generate _ r hr c hc := by
    simp only [kernelHashes, zeroHashes, Vector.getElem_replicate]
    decide

/-- Every thread is on a CUDA worker, with an OpenCL worker for its fallback. -/
def twoWorkers : Rig where
  device _ := .cuda Cuda.twoBlocks
  spare _ := .openCl OpenCl.oneGroup

theorem twoWorkers_whole : twoWorkers.Whole where
  device _ := Cuda.wholeBlocks_twoBlocks
  spare _ := ⟨⟨by decide, by decide, by decide⟩, rfl⟩

/-- The actions of a run without a launch. -/
def working {A : Type} (actions : List A) : List (RigAction A) :=
  actions.map fun a => ⟨a, .completes ⟨0, fun _ => Vector.replicate 4096 0, []⟩, twoWorkers⟩

/-- The launch of thread 0 completes, and this nonce is read. -/
def launching {A : Type} (site : SiteAction → A) (nonce : UInt64) (c : Chance) : RigAction A :=
  ⟨site (.thread 0 (.launch (.cell nonce) true)), .completes c, twoWorkers⟩

theorem working_built {A : Type} {actions : List A} : ∀ a ∈ working actions, a.built.Whole := by
  intro a ha
  obtain ⟨action, -, rfl⟩ := List.mem_map.mp ha
  exact twoWorkers_whole

theorem launching_built {A : Type} {before : List A} (after : List A) {site : SiteAction → A} {nonce : UInt64}
    {c : Chance} : ∀ a ∈ working before ++ launching site nonce c :: working after, a.built.Whole := by
  intro a ha
  rcases List.mem_append.mp ha with ha | ha
  · exact working_built a ha
  · rcases List.mem_cons.mp ha with rfl | ha
    · exact twoWorkers_whole
    · exact working_built a ha

end Miner

/-! ### A matrix of zeros -/

theorem addColumns_zero (sum : UInt32) (nibbles : Bytes 64) {j : Nat} (hj : j + 3 < 64) :
    addColumns sum (Vector.replicate 64 0) nibbles j = sum := by
  have hzero {k : Nat} (hk : k < 64) : (Vector.replicate 64 (0 : UInt8))[k]! = 0 := by
    rw [Loop.getElem!_eq _ hk, Vector.getElem_replicate]
  simp [addColumns, hzero hj, hzero (Nat.lt_of_le_of_lt (Nat.le_add_right j 3) hj),
    hzero (show j + 1 < 64 by omega), hzero (show j + 2 < 64 by omega)]

theorem dotProducts4Rows_zero (nibbles : Bytes 64) :
    dotProducts4Rows (Vector.replicate 64 0) (Vector.replicate 64 0) (Vector.replicate 64 0) (Vector.replicate 64 0)
      nibbles false = ⟨0, 0, 0, 0⟩ := by
  unfold dotProducts4Rows
  rw [if_neg Bool.false_ne_true]
  refine Loop.forRange_inv (P := fun _ s => s = Sums.mk 0 0 0 0) (by decide) rfl fun block s _ hblock hs => ?_
  have hj : 4 * block + 3 < 64 := by omega
  simp only [hs, addColumns_zero _ _ hj]

theorem nibbleByte_zero (h : UInt8) : Sums.nibbleByte ⟨0, 0, 0, 0⟩ h = h := UInt8.zero_xor

theorem productByte_zero (h : UInt8) : Sums.productByte ⟨0, 0, 0, 0⟩ h = h := UInt8.zero_xor

namespace Matrix

/-- Without the matrix a byte of the products is that of the hash. -/
theorem rowBody_zero (hashBytes : Bytes 32) {i : Nat} (hi : i < 32) (q : Bytes 32 × Bytes 32) :
    rowBody ⟨Vector.replicate 64 (Vector.replicate 64 0)⟩ hashBytes false i q =
      (q.1.set! i hashBytes[i]!, q.2.set! i hashBytes[i]!) := by
  have hrow {k : Nat} (hk : k < 64) :
      (Vector.replicate 64 (Vector.replicate 64 (0 : UInt8)))[k]! = Vector.replicate 64 0 := by
    rw [Loop.getElem!_eq _ hk, Vector.getElem_replicate]
  simp only [rowBody, hrow (show 2 * i < 64 by omega), hrow (show 2 * i + 1 < 64 by omega),
    hrow (show i + 2 < 64 by omega), hrow (show i + 3 < 64 by omega), dotProducts4Rows_zero, nibbleByte_zero,
    productByte_zero]

theorem products_zero (hashBytes : Bytes 32) :
    products ⟨Vector.replicate 64 (Vector.replicate 64 0)⟩ hashBytes false = (hashBytes, hashBytes) := by
  have hall : ∀ j (hj : j < 32), j < 32 →
      (products ⟨Vector.replicate 64 (Vector.replicate 64 0)⟩ hashBytes false).1[j] = hashBytes[j] ∧
        (products ⟨Vector.replicate 64 (Vector.replicate 64 0)⟩ hashBytes false).2[j] = hashBytes[j] := by
    refine Loop.forRange_inv (P := fun n (q : Bytes 32 × Bytes 32) =>
      ∀ j (hj : j < 32), j < n → q.1[j] = hashBytes[j] ∧ q.2[j] = hashBytes[j]) (Nat.zero_le 32)
      (fun _ _ hlt => absurd hlt (Nat.not_lt_zero _)) fun i q _ hi hq j hj hlt => ?_
    rw [rowBody_zero hashBytes hi, Loop.getElem!_eq _ hi]
    dsimp only
    rw [Loop.getElem_set! hj, Loop.getElem_set! hj]
    split
    · next heq =>
      subst heq
      exact ⟨rfl, rfl⟩
    · next hne => exact hq j hj (Nat.lt_of_le_of_ne (Nat.le_of_lt_succ hlt) fun heq => hne heq.symm)
  exact Prod.ext (Vector.ext fun j hj => (hall j hj hj).1) (Vector.ext fun j hj => (hall j hj hj).2)

end Matrix

/-! ### A nonce that passes -/

namespace Miner.Passing

def nonce : UInt64 := 0x0100000000000026

def finalized : Hash :=
  ⟨Array.toVector #[14398224286064716324, 1915841507190597694, 2757886927434197237, 6615879055939790217]⟩

def rounded : Bytes 32 := Array.toVector #[58, 205, 214, 206, 66, 129, 153, 93, 102, 151, 204, 255, 91, 168, 216, 219,
  245, 177, 5, 5, 223, 182, 253, 235, 220, 182, 59, 29, 75, 221, 181, 149]

def product : Bytes 32 := Array.toVector #[90, 165, 150, 96, 81, 76, 28, 250, 166, 155, 121, 34, 0, 86, 176, 125,
  21, 10, 1, 96, 159, 251, 240, 232, 220, 242, 101, 165, 179, 5, 103, 252]

def mixed : Bytes 32 := Array.toVector #[199, 208, 27, 146, 49, 24, 43, 64, 210, 197, 239, 25, 234, 216, 220, 160,
  57, 12, 200, 190, 251, 179, 8, 191, 125, 90, 235, 84, 205, 169, 8, 200]

def pow : Uint256 :=
  ⟨Array.toVector #[7285139056936834298, 5055914129718348473, 16908953530952657877, 702990365341672235]⟩

theorem finalizeWithNonce_eq :
    (PowHasher.new ⟨Vector.replicate 4 0⟩ 5).finalizeWithNonce Cuda.primitives nonce = finalized := by
  decide +kernel

theorem rounds_eq : PreMatrix.rounds Cuda.primitives finalized.toLeBytes = rounded := by
  decide +kernel

theorem mixOctonion_eq : Matrix.mixOctonion rounded = product := by
  decide +kernel

theorem mixed_eq : Buffers.mixed Cuda.primitives ⟨product, rounded, rounded, rounded⟩ = mixed := by
  decide +kernel

theorem hash_eq : HeavyHasher.hash Cuda.primitives (Uint256.fromLeBytes mixed) = pow := by
  decide +kernel

/-- The proof of work of `nonce` for a job whose header hash and matrix are zero. -/
theorem calculatePow_eq {s : State RpcBlock} (hhasher : s.hasher = PowHasher.new ⟨Vector.replicate 4 0⟩ 5)
    (hmatrix : s.matrix = ⟨Vector.replicate 64 (Vector.replicate 64 0)⟩) :
    s.calculatePow Cuda.primitives false nonce = pow := by
  have hpre : s.preMatrix Cuda.primitives nonce = rounded := by
    rw [State.preMatrix, hhasher, finalizeWithNonce_eq, rounds_eq]
  have hbuffers : s.matrix.buffers rounded false = ⟨product, rounded, rounded, rounded⟩ := by
    rw [hmatrix, Matrix.buffers, Matrix.products_zero]
    dsimp only
    rw [mixOctonion_eq]
  rw [State.calculatePow, Matrix.heavyHash, hpre, Uint256.toLeBytes_fromLeBytes, hbuffers, mixed_eq, hash_eq]

theorem checkPow {s : State RpcBlock} {target : Uint256} (hhasher : s.hasher = PowHasher.new ⟨Vector.replicate 4 0⟩ 5)
    (hmatrix : s.matrix = ⟨Vector.replicate 64 (Vector.replicate 64 0)⟩) (htarget : s.target = target)
    (hle : pow.le target = true) : s.checkPow kernelHashes.primitives kernelHashes.useAvx2 nonce = true := by
  rw [← htarget, ← calculatePow_eq hhasher hmatrix] at hle
  exact hle

/-- The random word of a launch is such that its first thread draws `nonce`. -/
theorem cudaNonce_eq {s : State RpcBlock} {nonceMask nonceFixed nextU64 : UInt64} (hmask : s.nonceMask = nonceMask)
    (hfixed : s.nonceFixed = nonceFixed) (hdraw : (nextU64 &&& nonceMask) ||| nonceFixed = nonce) :
    s.cudaNonce Cuda.twoBlocks nextU64 0 = nonce := by
  have hdrawn : s.cudaNonce Cuda.twoBlocks nextU64 0 = ((nextU64 ^^^ 0) &&& s.nonceMask) ||| s.nonceFixed := rfl
  rw [hdrawn, UInt64.xor_zero, hmask, hfixed, hdraw]

end Miner.Passing

/-! ### A node -/

namespace Grpc
namespace RigSession

structure Sound (opt : Opt) (S : Semver) (E : Setting) (ctr : UInt16) (as : List SessionAction) (s : RigSession) :
    Prop where
  session : s.session.Sound opt S E ctr as
  rig : s.rig.Whole
  right : ∃ gpu, s.session.site.Right gpu

section
variable {opt : Opt} {S : Semver} {E : Setting} {ctr : UInt16} {s t : RigSession} {u : Session} {as : List SessionAction}

theorem session_step {a : RigAction SessionAction} (hstep : s.step opt S E a = some t) :
    s.session.step opt S E a.action = some t.session := by
  obtain ⟨u, hu, hstep⟩ := Option.bind_eq_some_iff.mp hstep
  obtain ⟨r, -, hstep⟩ := Option.bind_eq_some_iff.mp hstep
  cases hstep
  exact hu

theorem nextRig_whole (h : s.rig.Whole) {a : RigAction SessionAction} (hbuilt : a.built.Whole) {rig : Rig}
    (hrig : s.nextRig a = some rig) : rig.Whole := by
  unfold nextRig at hrig
  split at hrig
  · cases hrig
    exact hbuilt
  · exact h.step hrig
  · cases hrig
    exact h

theorem right_client (h : ∃ gpu, s.session.site.Right gpu) {a : Action RpcBlock} {delivered : Bool}
    {kinds : Nat → UInt64 ⊕ Bool} (hstep : s.session.client opt S E a delivered kinds = some u) :
    ∃ gpu, u.site.Right gpu := by
  obtain ⟨process, -, hstep⟩ := Option.bind_eq_some_iff.mp hstep
  split at hstep
  · cases hstep
    exact ⟨_, Miner.Site.start_right kinds⟩
  · unfold Session.receive at hstep
    split at hstep
    · cases hstep
      exact h
    · next block _ =>
      dsimp only at hstep
      split at hstep
      · cases hstep
        obtain ⟨gpu, hright⟩ := h
        exact ⟨gpu, hright.process (E := E) delivered (block.map .fullBlock)⟩
      · cases hstep
  · cases hstep
    exact h

theorem Sound.step (h : s.Sound opt S E ctr as) (hE : E.Standard) {a : RigAction SessionAction} (ha : a.action ∈ as)
    (hbuilt : a.built.Whole) (hstep : s.step opt S E a = some t) : t.Sound opt S E ctr as := by
  have hsession := h.session.step ha (session_step hstep)
  obtain ⟨action, device, built⟩ := a
  obtain ⟨u, hu, hstep⟩ := Option.bind_eq_some_iff.mp hstep
  obtain ⟨rig, hrig, hstep⟩ := Option.bind_eq_some_iff.mp hstep
  cases hstep
  refine ⟨hsession, nextRig_whole h.rig hbuilt hrig, ?_⟩
  cases action with
  | client a delivered kinds => exact right_client h.right hu
  | site b =>
    obtain ⟨site, hsite, rfl⟩ := Option.map_eq_some_iff.mp hu
    obtain ⟨gpu, hright⟩ := h.right
    exact ⟨gpu, hright.step h.session.site hE h.rig hsite hrig⟩
  | forward =>
    obtain ⟨⟨b, site⟩, hforward, heq⟩ := Option.map_eq_some_iff.mp hu
    obtain ⟨gpu, hright⟩ := h.right
    have hsite := hright.forward hforward
    cases b with
    | fullBlock block =>
      cases heq
      exact ⟨gpu, hsite⟩
    | partialBlock =>
      cases heq
      exact ⟨gpu, hsite⟩

end
end RigSession

theorem RigSession.sound_of_run (opt : Opt) (S : Semver) {E : Setting} (hE : E.Standard) (ctr : UInt16)
    (kinds : Nat → UInt64 ⊕ Bool) {rig : Rig} (hrig : rig.Whole) {as : List (RigAction SessionAction)}
    (hbuilt : ∀ a ∈ as, a.built.Whole) {s : RigSession}
    (hrun : run (RigSession.step opt S E) ⟨.start ctr kinds, rig⟩ as = some s) :
    s.Sound opt S E ctr (as.map (·.action)) := by
  refine run_inv hrun ⟨Session.start_sound .., hrig, _, Miner.Site.start_right kinds⟩ fun pre a post u v has _ hu hv => ?_
  have ha : a ∈ as := has ▸ List.mem_append_right pre (List.mem_cons_self ..)
  exact hu.step hE (List.mem_map_of_mem ha) (hbuilt a ha) hv

/-- Over any run of a node's client with CPU threads and GPU threads, each of these on a CUDA worker with whole blocks
    or an OpenCL worker with whole groups and the plain matrix, in any interleaving within each launch, with launches
    that fail and fallbacks: the session goes as without the workers, and no thread ends on a wrong nonce. -/
theorem rig_right (opt : Opt) (S : Semver) {E : Setting} (hE : E.Standard) (ctr : UInt16) (kinds : Nat → UInt64 ⊕ Bool)
    {rig : Rig} (hrig : rig.Whole) {as : List (RigAction SessionAction)} (hbuilt : ∀ a ∈ as, a.built.Whole)
    {s : RigSession} (hrun : run (RigSession.step opt S E) ⟨.start ctr kinds, rig⟩ as = some s) :
    run (Session.step opt S E) (.start ctr kinds) (as.map (·.action)) = some s.session ∧
    ∀ k g, s.session.site.threads k = .gpu g → ∀ e ∈ g.log, e.wrong = false := by
  refine ⟨run_follow RigSession.session (·.action) (fun _ _ _ => RigSession.session_step) hrun, fun k g hk => ?_⟩
  obtain ⟨gpu, hright⟩ := (RigSession.sound_of_run opt S hE ctr kinds hrig hbuilt hrun).right
  have hthread := hright.threads k
  rw [hk] at hthread
  exact hthread

/-- A template comes and thread 0 takes it. -/
def templateTaken : List SessionAction :=
  let header := Pow.twoLevels "0123456789abcdef0123456789abcdef0123456789abcdef0123456789abcdef" "c3a1f"
  let template : RpcBlock := ⟨some { header with bits := 0x207fffff, timestamp := 5 }, [], none⟩
  [.client .connect true fun _ => .inr true,
   .client (.receive (some (.getBlockTemplateResponse (some template) true none)) ⟨fun _ => true, .ok⟩) true
     fun _ => .inr true,
   .site (.thread 0 .channel), .site (.thread 0 .channel)]

theorem templateTaken_run : ∃ s g job, run (RigSession.step ⟨"miner", false, "", 0⟩
      ⟨Unit, fun _ => some (), fun _ _ => true⟩ Miner.kernelHashes) ⟨.start 0 fun _ => .inr true, Miner.twoWorkers⟩
      (Miner.working templateTaken) = some s ∧
    s.rig = Miner.twoWorkers ∧ s.session.site.threads 0 = .gpu g ∧ g.pc = .head ∧ g.state = some job ∧
    job.hasher = PowHasher.new ⟨Vector.replicate 4 0⟩ 5 ∧
    job.matrix = ⟨Vector.replicate 64 (Vector.replicate 64 0)⟩ ∧
    job.target = ⟨Array.toVector #[0, 0, 0, 0x7fffff0000000000]⟩ ∧ job.nonceMask = 0xffffffffffffffff ∧
    job.nonceFixed = 0 ∧ s.session.site.queueOpen = true ∧ s.session.site.queue = [] :=
  ⟨_, _, _, rfl, rfl, rfl, rfl, rfl, rfl, rfl, rfl, rfl, rfl, rfl, rfl⟩

/-- Thread 0 launches, the launch completes, and the nonce that is read makes a block. -/
theorem rig_right_share : ∃ nonce chance s, run (RigSession.step ⟨"miner", false, "", 0⟩
      ⟨Unit, fun _ => some (), fun _ _ => true⟩ Miner.kernelHashes) ⟨.start 0 fun _ => .inr true, Miner.twoWorkers⟩
      (Miner.working templateTaken ++ [Miner.launching .site nonce chance]) = some s ∧
    s.session.site.queue.length = 1 ∧ ∃ g, s.session.site.threads 0 = .gpu g ∧
      (∃ jobVersion version full, .launched jobVersion version full .share ∈ g.log) ∧ ∀ e ∈ g.log, e.wrong = false := by
  obtain ⟨s, g, job, hrun, hrig, hk, hpc, hjob, hhasher, hmatrix, htarget, hmask, hfixed, hopen, hqueue⟩ :=
    templateTaken_run
  have hs := RigSession.sound_of_run ⟨"miner", false, "", 0⟩ ⟨Unit, fun _ => some (), fun _ _ => true⟩
    Miner.kernelHashes_standard 0 (fun _ => .inr true) Miner.twoWorkers_whole Miner.working_built hrun
  have hdrawn : job.cudaNonce Cuda.twoBlocks Miner.Passing.nonce 0 = Miner.Passing.nonce :=
    Miner.Passing.cudaNonce_eq hmask hfixed (by decide)
  have hyes := Miner.Passing.checkPow hhasher hmatrix htarget (by decide)
  rw [← hdrawn] at hyes
  obtain ⟨order, nonce, b, y, r', hy, hr', hhanded, -, hgpu⟩ := hs.session.site.exists_share Miner.kernelHashes_standard
    hs.rig hk hpc hjob (by rw [hrig]; rfl) hopen hqueue (fun _ => nofun) Miner.Passing.nonce
    (fun _ => Vector.replicate 4096 1) (by decide : 0 < 4) (by rw [hdrawn]; decide) hyes
    s.session.process.handler.isSome true
  have hall : run (RigSession.step ⟨"miner", false, "", 0⟩ ⟨Unit, fun _ => some (), fun _ _ => true⟩ Miner.kernelHashes)
      ⟨.start 0 fun _ => .inr true, Miner.twoWorkers⟩ (Miner.working templateTaken ++
        [Miner.launching .site nonce ⟨Miner.Passing.nonce, fun _ => Vector.replicate 4096 1, order⟩]) =
      some ⟨{ s.session with site := y }, r'⟩ := by
    rw [run_append hrun]
    simp [Miner.launching, RigSession.step, Session.step, RigSession.nextRig, run, hy, hr']
  have hright := (rig_right ⟨"miner", false, "", 0⟩ ⟨Unit, fun _ => some (), fun _ _ => true⟩ Miner.kernelHashes_standard
    0 (fun _ => .inr true) Miner.twoWorkers_whole (Miner.launching_built []) hall).2 0 _ hgpu
  exact ⟨nonce, _, _, hall, congrArg List.length hhanded, _, hgpu, ⟨_, _, _, List.mem_cons_self ..⟩, hright⟩

end Grpc

/-! ### A pool -/

/-- The nonce is in the partition that came with the job. -/
def BlockSeed.Leaves (nonce : UInt64) : BlockSeed Empty → Prop
  | .fullBlock block => block.elim
  | .partialBlock _ _ _ _ _ nonceMask nonceFixed _ => nonce = (nonce &&& nonceMask) ||| nonceFixed

namespace Stratum

/-- The threads of the manager are all on the GPU, as they are by default. -/
def SessionAction.GpuOnly : SessionAction → Prop
  | .client _ kinds => ∀ k, (kinds k).isRight = true
  | .site _ | .forward => True

namespace RigSession

/-- What every step keeps. -/
structure Sound (opt : Opt) (E : Setting) (ctr : UInt16) (s : RigSession) (init : Session) (as : List SessionAction) :
    Prop where
  session : s.session.Sound opt E ctr init as
  rig : s.rig.Whole
  right : s.session.site.Right fun _ => true
  lines : ∀ line ∈ s.session.lines, ∃ seed nonce, Notified opt E init as seed ∧ seed.jobId = line.jobId ∧
    line.nonce = Hex.format 16 nonce.toNat ∧ seed.Leaves nonce ∧
      ∃ id state, E.newOrPanic id seed.ofPool = some (.ok state) ∧ state.checkPow E.primitives E.useAvx2 nonce = true

section
variable {opt : Opt} {E : Setting} {ctr : UInt16} {init u : Session} {s t : RigSession} {as pre post : List SessionAction}
  {rig : Rig}

theorem session_step {a : RigAction SessionAction} (hstep : s.step opt E a = some t) :
    s.session.step opt E a.action = some t.session := by
  obtain ⟨u, hu, hstep⟩ := Option.bind_eq_some_iff.mp hstep
  obtain ⟨r, -, hstep⟩ := Option.bind_eq_some_iff.mp hstep
  cases hstep
  exact hu

theorem leaves_of_solves {seed : BlockSeed Empty} {b : BlockSeed RpcBlock} {nonce : UInt64}
    (h : E.Solves seed.ofPool b nonce) (hb : b.InPartition) : seed.Leaves nonce := by
  cases seed with
  | fullBlock block => exact block.elim
  | partialBlock =>
    cases h.withNonce with
    | share => exact hb

theorem Sound.client (h : s.Sound opt E ctr init as) {a : Action} {kinds : Nat → UInt64 ⊕ Bool}
    (hgpu : ∀ k, (kinds k).isRight = true) (hsession : u.Sound opt E ctr init as) (hrig : rig.Whole)
    (hstep : s.session.client opt E a kinds = some u) : Sound opt E ctr ⟨u, rig⟩ init as := by
  obtain ⟨process, -, hstep⟩ := Option.bind_eq_some_iff.mp hstep
  split at hstep
  · cases hstep
    refine ⟨hsession, hrig, ?_, h.lines⟩
    have hstart := Miner.Site.start_right kinds
    simp only [hgpu] at hstart
    exact hstart
  · next line delivered handler _ _ =>
    cases hstep
    refine ⟨hsession, hrig, ?_, ?_⟩
    · unfold Session.receive
      split
      · exact h.right
      · next seed _ => exact h.right.process (E := E) delivered (some seed.ofPool)
    · unfold Session.receive
      split <;> exact h.lines
  · cases hstep
  · cases hstep
    exact ⟨hsession, hrig, h.right, h.lines⟩

/-- The share that is sent was handed over by a GPU thread. -/
theorem Sound.forward (h : s.Sound opt E ctr init as) (hsession : u.Sound opt E ctr init as)
    (hstep : s.session.forward opt E = some u) : Sound opt E ctr ⟨u, s.rig⟩ init as := by
  obtain ⟨handler, -, hstep⟩ := Option.bind_eq_some_iff.mp hstep
  obtain ⟨⟨b, site⟩, hforward, hstep⟩ := Option.bind_eq_some_iff.mp hstep
  have hqueue : b ∈ s.session.site.queue := by
    unfold Miner.Site.forward at hforward
    split at hforward
    · next hqueue =>
      cases hforward
      exact hqueue ▸ List.mem_cons_self ..
    · cases hforward
  obtain ⟨k, hhanded⟩ := h.session.site.handed_of_mem_queue hqueue
  have hpart := h.right.handed k b hhanded rfl
  have hright := h.right.forward hforward
  obtain ⟨⟨_, nonce, ⟨seed, hnotified, rfl⟩, hsolves⟩, -, -⟩ := h.session.site.forward hforward
  obtain ⟨headerHash, timestamp, target, nonceMask, nonceFixed, hash, rfl⟩ := Session.share_of_solves hsolves
  obtain ⟨process, -, hstep⟩ := Option.bind_eq_some_iff.mp hstep
  cases hstep
  refine ⟨hsession, h.rig, hright, fun line hline => ?_⟩
  rcases List.mem_cons.mp hline with rfl | hline
  · exact ⟨seed, nonce, hnotified, rfl, rfl, leaves_of_solves hsolves hpart, hsolves.meets⟩
  · exact h.lines line hline

theorem Sound.step (h : s.Sound opt E ctr init as) (hE : E.Standard) {a : RigAction SessionAction}
    (hgpu : a.action.GpuOnly) (hbuilt : a.built.Whole) (has : as = pre ++ a.action :: post)
    (hpre : run (Session.step opt E) init pre = some s.session) (hstep : s.step opt E a = some t) :
    t.Sound opt E ctr init as := by
  obtain ⟨action, device, built⟩ := a
  obtain ⟨u, hu, hstep⟩ := Option.bind_eq_some_iff.mp hstep
  obtain ⟨rig, hrig, hstep⟩ := Option.bind_eq_some_iff.mp hstep
  cases hstep
  have hsession := h.session.step has hpre hu
  cases action with
  | client a kinds =>
    have hwhole : rig.Whole := by
      unfold nextRig at hrig
      dsimp only at hrig
      split at hrig
      · cases hrig
        exact hbuilt
      · next heq => cases heq
      · cases hrig
        exact h.rig
    exact h.client hgpu hsession hwhole hu
  | site b =>
    obtain ⟨site, hsite, rfl⟩ := Option.map_eq_some_iff.mp hu
    exact ⟨hsession, h.rig.step hrig, h.right.step h.session.site hE h.rig hsite hrig, h.lines⟩
  | forward =>
    cases hrig
    exact h.forward hsession hu

end
end RigSession

theorem RigSession.sound_of_run (opt : Opt) {E : Setting} (hE : E.Standard) (ctr : UInt16)
    {kinds : Nat → UInt64 ⊕ Bool} (hkinds : ∀ k, (kinds k).isRight = true) {rig : Rig} (hrig : rig.Whole)
    {as : List (RigAction SessionAction)} (hgpu : ∀ a ∈ as, a.action.GpuOnly) (hbuilt : ∀ a ∈ as, a.built.Whole)
    {s : RigSession} (hrun : run (RigSession.step opt E) ⟨.start ctr kinds, rig⟩ as = some s) :
    s.Sound opt E ctr (.start ctr kinds) (as.map (·.action)) := by
  refine run_inv (I := fun s => s.Sound opt E ctr (.start ctr kinds) (as.map (·.action))) hrun ?_ ?_
  · have hstart := Miner.Site.start_right kinds
    simp only [hkinds] at hstart
    exact ⟨Session.start_sound .., hrig, hstart, fun line hline => absurd hline List.not_mem_nil⟩
  · intro pre a post u v has hpre hu hv
    have ha : a ∈ as := has ▸ List.mem_append_right pre (List.mem_cons_self ..)
    have hsplit : as.map (·.action) = pre.map (·.action) ++ a.action :: post.map (·.action) := by
      rw [has, List.map_append, List.map_cons]
    exact hu.step hE (hgpu a ha) (hbuilt a ha) hsplit
      (run_follow RigSession.session (·.action) (fun _ _ _ => RigSession.session_step) hpre) hv

/-- Over any run of a pool's client with GPU threads alone, each on a CUDA worker with whole blocks or an OpenCL worker
    with whole groups and the plain matrix, in any interleaving within each launch, with launches that fail and
    fallbacks: the session goes as without the workers; every share that is sent is for a job of the pool, has a nonce
    of the partition that came with the job, and meets its target; and no thread ends on a wrong nonce. -/
theorem rig_shares (opt : Opt) {E : Setting} (hE : E.Standard) (ctr : UInt16) {kinds : Nat → UInt64 ⊕ Bool}
    (hkinds : ∀ k, (kinds k).isRight = true) {rig : Rig} (hrig : rig.Whole) {as : List (RigAction SessionAction)}
    (hgpu : ∀ a ∈ as, a.action.GpuOnly) (hbuilt : ∀ a ∈ as, a.built.Whole) {s : RigSession}
    (hrun : run (RigSession.step opt E) ⟨.start ctr kinds, rig⟩ as = some s) :
    run (Session.step opt E) (.start ctr kinds) (as.map (·.action)) = some s.session ∧
    (∀ line ∈ s.session.lines, ∃ seed nonce, Notified opt E (.start ctr kinds) (as.map (·.action)) seed ∧
      seed.jobId = line.jobId ∧ Hex.parseU64 (Hex.bytes line.nonce) = .ok nonce ∧ seed.Leaves nonce ∧
      ∃ id state, E.newOrPanic id seed.ofPool = some (.ok state) ∧
        state.checkPow E.primitives E.useAvx2 nonce = true) ∧
    ∀ k g, s.session.site.threads k = .gpu g → ∀ e ∈ g.log, e.wrong = false := by
  have hs := RigSession.sound_of_run opt hE ctr hkinds hrig hgpu hbuilt hrun
  refine ⟨run_follow RigSession.session (·.action) (fun _ _ _ => RigSession.session_step) hrun, fun line hline => ?_, fun k g hk => ?_⟩
  · obtain ⟨seed, nonce, hnotified, hid, hnonce, hleaves, hmeets⟩ := hs.lines line hline
    refine ⟨seed, nonce, hnotified, hid, ?_, hleaves, hmeets⟩
    rw [hnonce, Hex.parseU64_format (by decide) (by decide) nonce.toNat_lt, UInt64.ofNat_toNat]
  · have hright := hs.right.threads k
    rw [hk] at hright
    exact hright

/-- The pool sets the miner's partition and target, a job comes, and thread 0 takes it. -/
def jobTaken : List SessionAction :=
  let receive (id : Option UInt32) (payload : StratumLinePayload) : SessionAction :=
    .client (.receive ⟨id, payload, none⟩ true) fun _ => .inr true
  [.client .connect fun _ => .inr true, .client .register fun _ => .inr true,
   receive (some 0) (.result (.subscribe [] "01" 7)),
   receive none (.command (.miningSetDifficulty (integerDecode 0x4d800000))),
   receive none (.command (.miningNotify (.short "job" ⟨Vector.replicate 4 0⟩ 5))),
   .site (.thread 0 .channel), .site (.thread 0 .channel)]

theorem jobTaken_run : ∃ s g job h, run (RigSession.step ⟨"miner", "", 0⟩ Miner.kernelHashes)
      ⟨.start 0 fun _ => .inr true, Miner.twoWorkers⟩ (Miner.working jobTaken) = some s ∧
    s.rig = Miner.twoWorkers ∧ s.session.site.threads 0 = .gpu g ∧ g.pc = .head ∧ g.state = some job ∧
    job.hasher = PowHasher.new ⟨Vector.replicate 4 0⟩ 5 ∧
    job.matrix = ⟨Vector.replicate 64 (Vector.replicate 64 0)⟩ ∧
    job.target = ⟨Array.toVector #[0, 0, 0, 0x0ffff00000000000]⟩ ∧ job.nonceMask = 0x00ffffffffffffff ∧
    job.nonceFixed = 0x0100000000000000 ∧ s.session.site.queueOpen = true ∧ s.session.site.queue = [] ∧
    s.session.process.handler = some h ∧ s.session.lines = [] :=
  ⟨_, _, _, _, rfl, rfl, rfl, rfl, rfl, rfl, rfl, rfl, rfl, rfl, rfl, rfl, rfl, rfl⟩

theorem jobTaken_gpuOnly (nonce : UInt64) (c : Miner.Chance) : ∀ a ∈ Miner.working jobTaken ++
    Miner.launching SessionAction.site nonce c :: Miner.working [.forward], a.action.GpuOnly := by
  intro a ha
  simp only [Miner.working, jobTaken, List.map_cons, List.map_nil, List.cons_append, List.nil_append, List.mem_cons,
    List.not_mem_nil, or_false] at ha
  rcases ha with rfl | rfl | rfl | rfl | rfl | rfl | rfl | rfl | rfl
  iterate 5 exact fun _ => rfl
  all_goals trivial

/-- The launch of thread 0 completes, and its share is sent. -/
theorem rig_shares_sent : ∃ nonce chance s line, run (RigSession.step ⟨"miner", "", 0⟩ Miner.kernelHashes)
      ⟨.start 0 fun _ => .inr true, Miner.twoWorkers⟩
      (Miner.working jobTaken ++ Miner.launching .site nonce chance :: Miner.working [.forward]) = some s ∧
    s.session.lines = [line] ∧ (∃ (seed : BlockSeed Empty) (nonce : UInt64), seed.jobId = line.jobId ∧
      Hex.parseU64 (Hex.bytes line.nonce) = .ok nonce ∧ seed.Leaves nonce ∧
      ∃ id state, Miner.kernelHashes.newOrPanic id seed.ofPool = some (.ok state) ∧
        state.checkPow Cuda.primitives false nonce = true) ∧
    ∃ g, s.session.site.threads 0 = .gpu g ∧ (∃ jobVersion version full, .launched jobVersion version full .share ∈ g.log) ∧
      ∀ e ∈ g.log, e.wrong = false := by
  obtain ⟨s, g, job, h, hrun, hrig, hk, hpc, hjob, hhasher, hmatrix, htarget, hmask, hfixed, hopen, hqueue, hhandler,
    hlines⟩ := jobTaken_run
  have hs := RigSession.sound_of_run ⟨"miner", "", 0⟩ Miner.kernelHashes_standard 0 (fun _ => rfl) Miner.twoWorkers_whole
    (fun a ha => jobTaken_gpuOnly 0 ⟨0, fun _ => Vector.replicate 4096 0, []⟩ a (List.mem_append_left _ ha))
    Miner.working_built hrun
  have hdrawn : job.cudaNonce Cuda.twoBlocks 0x26 0 = Miner.Passing.nonce :=
    Miner.Passing.cudaNonce_eq hmask hfixed (by decide)
  have hyes := Miner.Passing.checkPow hhasher hmatrix htarget (by decide)
  rw [← hdrawn] at hyes
  obtain ⟨order, nonce, b, y, r', hy, hr', hhanded, hfound, hgpu⟩ := hs.session.site.exists_share
    Miner.kernelHashes_standard hs.rig hk hpc hjob (by rw [hrig]; rfl) hopen hqueue (fun _ => nofun) 0x26
    (fun _ => Vector.replicate 4096 1) (by decide : 0 < 4) (by rw [hdrawn]; decide) hyes
    s.session.process.listening.isSome true
  obtain ⟨_, _, ⟨seed, -, rfl⟩, hsolves⟩ := hfound
  obtain ⟨headerHash, timestamp, target, nonceMask, nonceFixed, hash, rfl⟩ := Session.share_of_solves hsolves
  have hall : ∃ t line, run (RigSession.step ⟨"miner", "", 0⟩ Miner.kernelHashes)
      ⟨.start 0 fun _ => .inr true, Miner.twoWorkers⟩ (Miner.working jobTaken ++
        Miner.launching .site nonce ⟨0x26, fun _ => Vector.replicate 4096 1, order⟩ :: Miner.working [.forward]) = some t ∧
      t.session.lines = [line] ∧ t.session.site.threads = y.threads := by
    rw [run_append hrun]
    simp [Miner.launching, Miner.working, RigSession.step, Session.step, RigSession.nextRig, Session.forward,
      Miner.Site.forward, Process.step, run, hy, hr', hhanded, hhandler, hlines]
  obtain ⟨t, line, hall, hline, hthreads⟩ := hall
  obtain ⟨-, hshares, hright⟩ := rig_shares ⟨"miner", "", 0⟩ Miner.kernelHashes_standard 0 (fun _ => rfl)
    Miner.twoWorkers_whole (jobTaken_gpuOnly _ _) (Miner.launching_built [SessionAction.forward]) hall
  obtain ⟨seed, nonce', -, hid, hparse, hleaves, hpasses⟩ := hshares line (hline ▸ List.mem_singleton_self line)
  rw [← hthreads] at hgpu
  exact ⟨nonce, _, t, line, hall, hline, ⟨seed, nonce', hid, hparse, hleaves, hpasses⟩, _, hgpu,
    ⟨_, _, _, List.mem_cons_self ..⟩, hright 0 _ hgpu⟩

end Stratum
end CryptixMiner
