import CryptixMiner.Client.Submission
import CryptixMiner.Theorems.GpuWorker
import CryptixMiner.Theorems.Solution

/-! What the threads of a miner hand over, in whatever order they and the manager take their steps: solutions of what
    the manager was given, and whole blocks no more often than jobs were taken. -/

namespace CryptixMiner.Miner
open StepSystem

/-- A job that was made of one of the seeds. -/
def Setting.Job (E : Setting) (seeds : BlockSeed RpcBlock → Prop) (s : State RpcBlock) : Prop :=
  ∃ id seed, seeds seed ∧ E.newOrPanic id seed = some (.ok s)

def Setting.Found (E : Setting) (seeds : BlockSeed RpcBlock → Prop) (b : BlockSeed RpcBlock) : Prop :=
  ∃ seed nonce, seeds seed ∧ E.Solves seed b nonce

def Thread.state : Thread → Option (State RpcBlock)
  | .cpu w => w.state
  | .gpu w => w.state

/-- A thread with a job may still hand over a block for it. -/
def Thread.due (t : Thread) : Nat := if t.state.isSome then 1 else 0

theorem Thread.due_le_one (t : Thread) : t.due ≤ 1 := by
  unfold Thread.due
  split <;> omega

def Event.takes (k : Nat) : Event → Bool
  | .took j => j == k
  | _ => false

def Event.hands (k : Nat) : Event → Bool
  | .handed j b => j == k && b.isFull
  | _ => false

def Event.handed? : Event → Option (BlockSeed RpcBlock)
  | .handed _ b => some b
  | _ => none

def Event.sent? : Event → Option (BlockSeed RpcBlock)
  | .sent b => some b
  | _ => none

namespace Site

/-- The blocks that were handed over, in their order. -/
def handed (x : Site) : List (BlockSeed RpcBlock) := (x.log.filterMap Event.handed?).reverse

def sent (x : Site) : List (BlockSeed RpcBlock) := (x.log.filterMap Event.sent?).reverse

/-- What every step keeps, with these seeds given to the manager. -/
structure Sound (E : Setting) (seeds : BlockSeed RpcBlock → Prop) (x : Site) : Prop where
  value : ∀ s, x.channel.value = some (.job s) → E.Job seeds s
  threads : ∀ k s, (x.threads k).state = some s → E.Job seeds s
  queue : ∀ b ∈ x.queue, E.Found seeds b
  panics : ∀ k b, .panicked k b ∈ x.log →
    ∃ block header, b = some (.fullBlock block) ∧ block.header = some header ∧ E.Found seeds (.fullBlock block) ∧
      E.date header.timestamp.toUInt64 = none
  counted : ∀ k, x.log.countP (Event.hands k) + (x.threads k).due ≤ x.log.countP (Event.takes k)
  ordered : ∃ lost, x.handed = x.sent ++ x.queue ++ lost ∧ (x.queueOpen = true → lost = [])

section
variable {E : Setting} {seeds : BlockSeed RpcBlock → Prop} {x y : Site} {k : Nat} {s : State RpcBlock}
  {b : BlockSeed RpcBlock} {w w' : CpuWorker RpcBlock} {g g' : GpuWorker RpcBlock} {t next dead : Thread}

theorem due_le {t u : Thread} (h : t.state.isSome → u.state.isSome) : t.due ≤ u.due := by
  unfold Thread.due
  by_cases ht : t.state.isSome = true
  · rw [if_pos ht, if_pos (h ht)]
  · rw [if_neg ht]
    exact Nat.zero_le _

theorem due_of_none (h : t.state = none) : t.due = 0 := by
  rw [Thread.due, h]
  rfl

theorem due_of_some (h : t.state = some s) : t.due = 1 := by
  rw [Thread.due, h]
  rfl

theorem start_sound (kinds : Nat → UInt64 ⊕ Bool) : (start kinds).Sound E seeds := by
  have hnone (k : Nat) : ((start kinds).threads k).state = none := by
    unfold start
    dsimp only
    split <;> rfl
  refine ⟨nofun, fun k s hs => ?_, nofun, nofun, fun k => ?_, [], rfl, fun _ => rfl⟩
  · rw [hnone] at hs
    cases hs
  · rw [due_of_none (hnone k)]
    exact Nat.le_refl 0

theorem Sound.publish (h : x.Sound E seeds) {command : Command RpcBlock}
    (hjob : ∀ s, command = some (.job s) → E.Job seeds s) : (x.publish command).Sound E seeds :=
  ⟨hjob, h.threads, h.queue, h.panics, h.counted, h.ordered⟩

/-- What `process_block` sends is the job of the block, or nothing. -/
theorem processBlock_sent {m : MinerManager} (hm : m.sent = none) {delivered : Bool} {block : Option (BlockSeed RpcBlock)}
    (h : (m.processBlock E.checks E.digest E.generate delivered block).2.sent = some (some (.job s))) :
    ∃ id seed, block = some seed ∧ E.newOrPanic id seed = some (.ok s) := by
  have hsend {m : MinerManager} {command : Command RpcBlock} (hm : m.sent = none)
      (h : (m.send delivered command).2.sent = some (some (.job s))) : command = some (.job s) := by
    cases delivered with
    | true => exact Option.some.inj h
    | false =>
      have hnone : m.sent = some (some (.job s)) := h
      rw [hm] at hnone
      cases hnone
  cases block with
  | none =>
    simp only [MinerManager.processBlock] at h
    split at h
    · cases hsend (by exact hm) h
    · rw [hm] at h
      cases h
  | some seed =>
    simp only [MinerManager.processBlock] at h
    split at h
    · rw [hm] at h
      cases h
    · rw [hm] at h
      cases h
    · next s' hnew =>
      obtain rfl : s' = s := by
        have heq := hsend (by exact hm) h
        cases heq
        rfl
      exact ⟨_, seed, rfl, hnew⟩

theorem Sound.process (h : x.Sound E seeds) (delivered : Bool) {block : Option (BlockSeed RpcBlock)}
    (hseeds : ∀ seed, block = some seed → seeds seed) : (x.process E delivered block).2.Sound E seeds := by
  unfold Site.process
  dsimp only
  have hmanager (manager : MinerManager) : ({ x with manager := manager } : Site).Sound E seeds :=
    ⟨h.value, h.threads, h.queue, h.panics, h.counted, h.ordered⟩
  split
  · next command hsent =>
    refine (hmanager _).publish fun s hs => ?_
    rw [hs] at hsent
    obtain ⟨id, seed, hblock, hnew⟩ := processBlock_sent rfl hsent
    exact ⟨id, seed, hseeds seed hblock, hnew⟩
  · exact hmanager _

/-! ### The threads -/

theorem setThread_due (x : Site) (k j : Nat) (t : Thread) :
    ((x.setThread k t).threads j).due = if j = k then t.due else (x.threads j).due := by
  simp only [setThread, Function.update_apply]
  split <;> rfl

/-- The last thing that becomes of a thread stands. -/
theorem setThread_logged (x : Site) (k : Nat) (t u : Thread) (log : List Event) :
    ({ x.setThread k t with log := log } : Site).setThread k u = { x with log := log }.setThread k u := by
  unfold setThread
  rw [Function.update_idem]

theorem Sound.setThread (h : x.Sound E seeds) (hjob : ∀ s, t.state = some s → E.Job seeds s)
    (hdue : x.log.countP (Event.hands k) + t.due ≤ x.log.countP (Event.takes k)) : (x.setThread k t).Sound E seeds := by
  refine ⟨h.value, fun j s hs => ?_, h.queue, h.panics, fun j => ?_, h.ordered⟩
  · simp only [Site.setThread, Function.update_apply] at hs
    split at hs
    · exact hjob s hs
    · exact h.threads j s hs
  · rw [setThread_due]
    split
    · next hj =>
      rw [hj]
      exact hdue
    · exact h.counted j

/-- A thread that has a job afterwards had one before, or took one. -/
theorem Sound.took (h : x.Sound E seeds) (k : Nat) (job : Bool) (hjob : ∀ s, t.state = some s → E.Job seeds s)
    (hdue : t.state.isSome → job = true ∨ (x.threads k).state.isSome) : ((x.took k job).setThread k t).Sound E seeds := by
  have hcounted := h.counted k
  cases job with
  | false =>
    have hle : t.due ≤ (x.threads k).due := due_le fun ht => (hdue ht).resolve_left nofun
    exact h.setThread hjob (by omega)
  | true =>
    have hlogged : ({ x with log := .took k :: x.log } : Site).Sound E seeds := by
      refine ⟨h.value, h.threads, h.queue, fun j b hb => h.panics j b ?_, fun j => ?_, h.ordered⟩
      · exact (List.mem_cons.mp hb).resolve_left nofun
      · have hj := h.counted j
        dsimp only
        rw [List.countP_cons, List.countP_cons, if_neg (by exact nofun)]
        omega
    refine hlogged.setThread hjob ?_
    have hle := t.due_le_one
    have htakes : Event.takes k (.took k) = true := beq_self_eq_true k
    rw [List.countP_cons, List.countP_cons, if_pos htakes, if_neg (by exact nofun)]
    omega

/-- A thread that has panicked on this block has no job any more. -/
theorem Sound.panicked (h : x.Sound E seeds) (hb : E.Found seeds b) (hpanic : ∃ block header, b = .fullBlock block ∧
    block.header = some header ∧ E.date header.timestamp.toUInt64 = none) (hdead : dead.state = none) :
    ({ x with log := .panicked k (some b) :: x.log }.setThread k dead).Sound E seeds := by
  have hlogged : ({ x with log := .panicked k (some b) :: x.log } : Site).Sound E seeds := by
    refine ⟨h.value, h.threads, h.queue, fun j c hc => ?_, fun j => ?_, h.ordered⟩
    · rcases List.mem_cons.mp hc with heq | hc
      · obtain ⟨block, header, rfl, hheader, hdate⟩ := hpanic
        cases heq
        exact ⟨block, header, rfl, hheader, hb, hdate⟩
      · exact h.panics j c hc
    · rw [List.countP_cons, List.countP_cons, if_neg (by exact nofun), if_neg (by exact nofun)]
      exact h.counted j
  refine hlogged.setThread (fun s hs => ?_) ?_
  · rw [hdead] at hs
    cases hs
  · rw [due_of_none hdead]
    exact Nat.le_trans (Nat.le_add_right _ _) (hlogged.counted k)

/-- A block that solves the job of the thread is handed over, or cannot be any more. -/
theorem Sound.handOver (h : x.Sound E seeds) (hs : (x.threads k).state = some s) (hb : E.Found seeds b)
    (hnext : ∀ s', next.state = some s' → s' = s ∧ b.isFull = false) (hdead : dead.state = none)
    (hstep : x.handOver E k b next dead = some y) : y.Sound E seeds := by
  have hjob : E.Job seeds s := h.threads k s hs
  have hold : (x.threads k).due = 1 := due_of_some hs
  have hcounted := h.counted k
  have hfull : next.due + (if b.isFull then 1 else 0) ≤ 1 := by
    cases hstate : next.state with
    | none =>
      rw [due_of_none hstate]
      split <;> omega
    | some s' =>
      rw [(hnext s' hstate).2]
      exact next.due_le_one
  have hnextJob : ∀ s', next.state = some s' → E.Job seeds s' := fun s' hs' => (hnext s' hs').1 ▸ hjob
  unfold Site.handOver at hstep
  split at hstep
  case isFalse =>
    cases hstep
    exact h.setThread hnextJob (by omega)
  next hopen =>
  split at hstep
  case isFalse => cases hstep
  next hempty =>
  obtain ⟨lost, hhanded, hlost⟩ := h.ordered
  -- The thread has nothing due any more where the block is a whole one.
  have hhands : Event.hands k (.handed k b) = b.isFull := by rw [Event.hands, beq_self_eq_true, Bool.true_and]
  have hqueue (t : Thread) (ht : ∀ s', t.state = some s' → E.Job seeds s')
      (hdue : t.due + (if b.isFull then 1 else 0) ≤ 1) :
      ({ x with queue := [b], log := .handed k b :: x.log }.setThread k t).Sound E seeds := by
    refine ⟨h.value, fun j s' hs' => ?_, fun c hc => List.mem_singleton.mp hc ▸ hb, fun j c hc => h.panics j c ?_,
      fun j => ?_, [], ?_, fun _ => rfl⟩
    · simp only [Site.setThread, Function.update_apply] at hs'
      split at hs'
      · exact ht s' hs'
      · exact h.threads j s' hs'
    · exact (List.mem_cons.mp hc).resolve_left nofun
    · have hj := h.counted j
      have htakes : Event.takes j (.handed k b) = false := rfl
      rw [setThread_due]
      simp only [Site.setThread, List.countP_cons, htakes]
      by_cases hjk : j = k
      · rw [if_pos hjk, hjk, hhands]
        simp only [Bool.false_eq_true, if_false]
        omega
      · have hother : Event.hands j (.handed k b) = false := by
          rw [Event.hands, beq_eq_false_iff_ne.mpr (Ne.symm hjk), Bool.false_and]
        rw [if_neg hjk, hother]
        simpa using hj
    · have hlast : (({ x with queue := [b], log := .handed k b :: x.log } : Site).setThread k t).handed = x.handed ++ [b] :=
        List.reverse_cons
      rw [hlast, hhanded, hempty, hlost hopen, List.append_nil, List.append_nil, List.append_nil]
      rfl
  dsimp only at hstep
  split at hstep
  · cases hstep
    exact hqueue next hnextJob hfull
  · next hreport =>
    cases hstep
    obtain ⟨seed, nonce, -, hsolves⟩ := id hb
    have hdue : dead.due + (if b.isFull then 1 else 0) ≤ 1 := by
      rw [due_of_none hdead]
      split <;> omega
    have hsound := (hqueue dead (fun s' hs' => absurd (hdead.symm.trans hs') nofun) hdue).panicked (k := k)
      hb (hsolves.reportBlock hreport) hdead
    rwa [setThread_logged] at hsound

/-- A job that a CPU thread has after a step it had before, unless the channel replied with it. -/
theorem state_of_step {a : CpuAction RpcBlock} (hstep : w.step a = some w') (hs : w'.state = some s) :
    w.state = some s ∨ a = .waitForChange (.ok (some (.job s))) ∨ a = .getChanged (.ok (some (some (.job s)))) := by
  unfold CpuWorker.step at hstep
  split at hstep
  · next reply _ _ =>
    cases hstep
    unfold CpuWorker.receive at hs
    split at hs
    · exact Or.inl hs
    · exact Or.inl hs
    · cases hs
      exact Or.inr (Or.inl rfl)
    · cases hs
  · next s' hstate =>
    cases hstep
    rw [hstate]
    simp only [CpuWorker.hash] at hs
    split at hs
    · cases hs
    · exact Or.inl hs
  · next reply _ =>
    cases hstep
    unfold CpuWorker.poll at hs
    split at hs
    · exact Or.inl hs
    · exact Or.inl hs
    · exact Or.inl hs
    · cases hs
      exact Or.inr (Or.inr rfl)
    · cases hs
  · cases hstep

/-- Only a job that is on offer is replied with. -/
theorem offers_of_cpuCall {r : Reply} {a : CpuAction RpcBlock} (h : x.cpuCall w r = some a)
    (ha : a = .waitForChange (.ok (some (.job s))) ∨ a = .getChanged (.ok (some (some (.job s))))) :
    x.channel.value = some (.job s) ∧ r = .changed := by
  unfold cpuCall at h
  generalize x.channel.value = value at h ⊢
  split at h
  · cases h
    rcases ha with ha | ha <;> cases ha
    exact ⟨rfl, rfl⟩
  · split at h
    · cases h
    · cases h
      rcases ha with ha | ha <;> cases ha
  · cases h
    rcases ha with ha | ha <;> cases ha
    exact ⟨rfl, rfl⟩
  · cases h
    rcases ha with ha | ha <;> cases ha
  · split at h
    · cases h
    · cases h
      rcases ha with ha | ha <;> cases ha
  · cases h
  · cases h

theorem offersJob_of_value (h : x.channel.value = some (.job s)) : x.offersJob = true := by rw [offersJob, h]

/-- A thread that has no other job than before, or the one on offer. -/
theorem Sound.tookOffered (h : x.Sound E seeds) {job : Bool} (hstate : ∀ s, t.state = some s →
    (x.threads k).state = some s ∨ (x.channel.value = some (.job s) ∧ job = true)) :
    ((x.took k job).setThread k t).Sound E seeds := by
  refine h.took k job (fun s hs => ?_) fun hs => ?_
  · rcases hstate s hs with hold | ⟨hvalue, -⟩
    · exact h.threads k s hold
    · exact h.value s hvalue
  · obtain ⟨s, hs⟩ := Option.isSome_iff_exists.mp hs
    exact (hstate s hs).symm.imp And.right fun hold => Option.isSome_of_mem hold

theorem Sound.cpuReply (h : x.Sound E seeds) (hk : x.threads k = .cpu w) {r : Reply} (hstep : x.cpuReply k w r = some y) :
    y.Sound E seeds := by
  obtain ⟨action, haction, hstep⟩ := Option.bind_eq_some_iff.mp hstep
  obtain ⟨w', hw', hstep⟩ := Option.bind_eq_some_iff.mp hstep
  cases hstep
  refine h.tookOffered fun s hs => ?_
  rw [hk]
  refine (state_of_step hw' hs).imp_right fun hreply => ?_
  obtain ⟨hvalue, rfl⟩ := offers_of_cpuCall haction hreply
  exact ⟨hvalue, by rw [offersJob_of_value hvalue]; rfl⟩

/-- The panic on a missing header does not come. -/
theorem Sound.generate (h : x.Sound E seeds) (hs : (x.threads k).state = some s) (nonce : UInt64) :
    E.generateBlockIfPow s nonce = some none ∨
      ∃ b, E.generateBlockIfPow s nonce = some (some b) ∧ E.Found seeds b ∧ b.isFull = s.block.isFull := by
  obtain ⟨id, seed, hseed, hnew⟩ := h.threads k s hs
  rcases State.generateBlockIfPow_cases hnew nonce with ⟨hnone, -⟩ | ⟨-, b, hb, hsolves⟩
  · exact Or.inl hnone
  · refine Or.inr ⟨b, hb, ⟨seed, nonce, hseed, hsolves⟩, ?_⟩
    rw [State.block_of_new hnew]
    cases hsolves.withNonce <;> rfl

theorem Sound.cpuHash (h : x.Sound E seeds) (hk : x.threads k = .cpu w) (hstep : x.cpuHash E k w = some y) :
    y.Sound E seeds := by
  unfold Site.cpuHash at hstep
  split at hstep
  case h_2 => cases hstep
  next s hpc hs =>
  have hstate : (x.threads k).state = some s := by rw [hk]; exact hs
  rcases h.generate hstate ((w.nonce &&& w.mask) ||| w.fixed) with hnone | ⟨b, hb, hfound, hfull⟩
  · rw [hnone] at hstep
    cases hstep
    refine h.setThread (fun s' hs' => ?_) ?_
    · exact h.threads k s' (hstate.trans hs')
    · have hdue : (Thread.cpu (w.hash s false)).due = 1 := due_of_some (s := s) rfl
      rw [hdue, ← due_of_some hstate]
      exact h.counted k
  · rw [hb] at hstep
    refine h.handOver hstate hfound (fun s' hs' => ?_) rfl hstep
    simp only [Thread.state, CpuWorker.hash, Bool.true_and] at hs'
    split at hs'
    · cases hs'
    · next hnot =>
      cases hs'
      exact ⟨rfl, by rw [hfull]; exact Bool.eq_false_iff.mpr hnot⟩

/-- A launch that finds nothing leaves the job. -/
theorem launch_state {result : RunResult} (hne : result ≠ .share) (builds : Bool) :
    (g.launch s result builds).state = g.state := by
  obtain ⟨-, ⟨-, hstate, -⟩ | ⟨-, ⟨-, -, hstate⟩ | ⟨hshare, -⟩ | ⟨-, -, hstate, -⟩⟩⟩ := g.launch_cases s result builds
  · exact hstate
  · exact hstate
  · exact absurd hshare hne
  · exact hstate

theorem Sound.gpuLaunch (h : x.Sound E seeds) (hk : (x.threads k).state = g.state) {report : Report} {builds : Bool}
    (hstep : x.gpuLaunch E k g report builds = some y) : y.Sound E seeds := by
  unfold Site.gpuLaunch at hstep
  split at hstep
  case h_2 => cases hstep
  next s hpc hs =>
  have hstate : (x.threads k).state = some s := hk.trans hs
  have hgoesOn {result : RunResult} (hne : result ≠ .share) :
      (x.setThread k (.gpu (g.launch s result builds))).Sound E seeds := by
    have hsame : (Thread.gpu (g.launch s result builds)).state = some s := (launch_state hne builds).trans hs
    refine h.setThread (fun s' hs' => h.threads k s' (hstate.trans (hsame.symm.trans hs'))) ?_
    rw [due_of_some hsame, ← due_of_some hstate]
    exact h.counted k
  dsimp only at hstep
  split at hstep
  · cases hstep
    exact hgoesOn nofun
  · cases hstep
    exact hgoesOn nofun
  · cases hstep
    exact hgoesOn nofun
  next nonce =>
  split at hstep
  · cases hstep
    exact hgoesOn nofun
  rcases h.generate hstate nonce with hnone | ⟨b, hb, hfound, hfull⟩
  · rw [hnone] at hstep
    cases hstep
    exact hgoesOn nofun
  · rw [hb] at hstep
    refine h.handOver hstate hfound (fun s' hs' => ?_) rfl hstep
    simp only [Thread.state, GpuWorker.launch] at hs'
    split at hs'
    · cases hs'
    · next hnot =>
      cases hs'
      exact ⟨rfl, by rw [hfull]; exact Bool.eq_false_iff.mpr hnot⟩

theorem Sound.gpuChannel (h : x.Sound E seeds) (hk : (x.threads k).state = g.state) (hchannel : g.channel = x.channel)
    (hstep : x.gpuChannel k g = some y) : y.Sound E seeds := by
  have hnolaunch : ∀ s, ¬(g.pc = .head ∧ g.state = some s) := by
    rintro s ⟨hpc, hs⟩
    rw [Site.gpuChannel, hpc, hs] at hstep
    cases hstep
  have hmap : (g.step (.worker .noNonce false)).map (fun g' =>
      (x.took k (x.offersJob && g.pc == .clone)).setThread k (.gpu g')) = some y := by
    unfold Site.gpuChannel at hstep
    split at hstep
    · cases hstep
    · exact hstep
  obtain ⟨g', hg', rfl⟩ := Option.map_eq_some_iff.mp hmap
  refine h.tookOffered fun s hs => ?_
  rw [hk]
  rcases GpuWorker.step_cases hg' with ⟨cmd, rfl⟩ | rfl | rfl | ⟨-, rfl⟩ | ⟨-, -, rfl⟩ | ⟨hpc, rfl⟩ |
    ⟨s', _, _, hpc, hs', -⟩
  · exact Or.inl hs
  · exact Or.inl hs
  · exact Or.inl hs
  · exact Or.inl hs
  · exact Or.inl hs
  · simp only [Thread.state, GpuWorker.receive, hchannel] at hs
    split at hs
    · next s' hvalue =>
      cases hs
      exact Or.inr ⟨hvalue, by rw [offersJob_of_value hvalue, hpc]; rfl⟩
    · exact Or.inl hs
    · cases hs
  · exact absurd ⟨hpc, hs'⟩ (hnolaunch s')

theorem Sound.gpuUnwind (h : x.Sound E seeds) (hstep : x.gpuUnwind k g = some y) : y.Sound E seeds := by
  unfold Site.gpuUnwind at hstep
  split at hstep
  case h_2 | h_3 | h_4 => cases hstep
  cases hstep
  have hlogged : ({ x with log := .unwound k :: x.log } : Site).Sound E seeds := by
    refine ⟨h.value, h.threads, h.queue, fun j c hc => h.panics j c ?_, fun j => ?_, h.ordered⟩
    · exact (List.mem_cons.mp hc).resolve_left nofun
    · rw [List.countP_cons, List.countP_cons, if_neg (by exact nofun), if_neg (by exact nofun)]
      exact h.counted j
  refine hlogged.setThread nofun ?_
  rw [due_of_none rfl]
  exact Nat.le_trans (Nat.le_add_right _ _) (hlogged.counted k)

theorem Sound.stepThread (h : x.Sound E seeds) {a : ThreadAction} (hstep : x.stepThread E k a = some y) :
    y.Sound E seeds := by
  unfold Site.stepThread at hstep
  split at hstep
  · next w r hk => exact h.cpuReply hk hstep
  · next w hk => exact h.cpuHash hk hstep
  · next g report builds hk => exact h.gpuLaunch (by rw [hk]; rfl) hstep
  · next g hk => exact h.gpuChannel (by rw [hk]; rfl) rfl hstep
  · exact h.gpuUnwind hstep
  · cases hstep

/-! ### The rest -/

theorem Sound.drop (h : x.Sound E seeds) (delivered : Bool) : (x.drop delivered).Sound E seeds := by
  have hdead : ({ x with managerAlive := false } : Site).Sound E seeds :=
    ⟨h.value, h.threads, h.queue, h.panics, h.counted, h.ordered⟩
  unfold Site.drop
  dsimp only
  split
  · exact hdead.publish fun s hs => nomatch hs
  · exact hdead

theorem Sound.closeQueue (h : x.Sound E seeds) : x.closeQueue.Sound E seeds := by
  obtain ⟨lost, hhanded, -⟩ := h.ordered
  have hlost : x.handed = x.sent ++ [] ++ (x.queue ++ lost) := by
    rw [hhanded, List.append_nil, List.append_assoc]
  exact ⟨h.value, h.threads, nofun, h.panics, h.counted, x.queue ++ lost, hlost, nofun⟩

theorem Sound.forward (h : x.Sound E seeds) (hstep : x.forward = some (b, y)) :
    E.Found seeds b ∧ y.Sound E seeds ∧ y.sent = x.sent ++ [b] := by
  unfold Site.forward at hstep
  split at hstep
  case h_2 => cases hstep
  next rest hqueue =>
  cases hstep
  obtain ⟨lost, hhanded, hlost⟩ := h.ordered
  have hsent : ({ x with queue := rest, log := .sent b :: x.log } : Site).sent = x.sent ++ [b] := List.reverse_cons
  refine ⟨h.queue b (hqueue ▸ List.mem_cons_self ..), ⟨h.value, h.threads, fun c hc => ?_, fun j c hc => ?_, fun j => ?_,
    lost, ?_, hlost⟩, hsent⟩
  · exact h.queue c (hqueue ▸ List.mem_cons_of_mem _ hc)
  · exact h.panics j c ((List.mem_cons.mp hc).resolve_left nofun)
  · rw [List.countP_cons, List.countP_cons, if_neg (by exact nofun), if_neg (by exact nofun)]
    exact h.counted j
  · rw [hsent, List.append_assoc x.sent, List.singleton_append, ← hqueue]
    exact hhanded

theorem Sound.step (h : x.Sound E seeds) {connected : Bool} {a : SiteAction} (hstep : x.step E connected a = some y) :
    y.Sound E seeds := by
  cases a with
  | thread k a => exact h.stepThread hstep
  | drop delivered =>
    obtain ⟨-, hstep⟩ := Option.ite_none_left_eq_some.mp hstep
    cases hstep
    exact h.drop delivered
  | dropSender =>
    obtain ⟨-, hstep⟩ := Option.ite_none_left_eq_some.mp hstep
    cases hstep
    exact ⟨h.value, h.threads, h.queue, h.panics, h.counted, h.ordered⟩
  | closeQueue =>
    cases hstep
    exact h.closeQueue

/-- What is sent is what was handed over, in its order. -/
theorem Sound.sent_prefix (h : x.Sound E seeds) : x.sent <+: x.handed := by
  obtain ⟨lost, hhanded, -⟩ := h.ordered
  exact ⟨x.queue ++ lost, by rw [hhanded, List.append_assoc]⟩

/-! ### Only the submission task sends -/

theorem sent_took (x : Site) (k : Nat) (job : Bool) : (x.took k job).sent = x.sent := by
  unfold Site.took
  split <;> rfl

theorem sent_process (x : Site) (delivered : Bool) (block : Option (BlockSeed RpcBlock)) :
    (x.process E delivered block).2.sent = x.sent := by
  unfold Site.process
  dsimp only
  split <;> rfl

theorem sent_handOver (hstep : x.handOver E k b next dead = some y) : y.sent = x.sent := by
  unfold Site.handOver at hstep
  split at hstep
  · split at hstep
    · dsimp only at hstep
      split at hstep <;> cases hstep <;> rfl
    · cases hstep
  · cases hstep
    rfl

theorem sent_stepThread {a : ThreadAction} (hstep : x.stepThread E k a = some y) : y.sent = x.sent := by
  unfold Site.stepThread at hstep
  split at hstep
  · obtain ⟨action, -, hstep⟩ := Option.bind_eq_some_iff.mp hstep
    obtain ⟨w', -, hstep⟩ := Option.bind_eq_some_iff.mp hstep
    cases hstep
    exact sent_took x k _
  · unfold Site.cpuHash at hstep
    split at hstep
    · split at hstep
      · cases hstep
        rfl
      · cases hstep
        rfl
      · exact sent_handOver hstep
    · cases hstep
  · unfold Site.gpuLaunch at hstep
    split at hstep
    · dsimp only at hstep
      split at hstep
      · cases hstep
        rfl
      · cases hstep
        rfl
      · cases hstep
        rfl
      · split at hstep
        · cases hstep
          rfl
        · split at hstep
          · cases hstep
            rfl
          · cases hstep
            rfl
          · exact sent_handOver hstep
    · cases hstep
  · unfold Site.gpuChannel at hstep
    split at hstep
    · cases hstep
    · obtain ⟨g', -, rfl⟩ := Option.map_eq_some_iff.mp hstep
      exact sent_took x k _
  · unfold Site.gpuUnwind at hstep
    split at hstep <;> cases hstep
    rfl
  · cases hstep

theorem sent_step {connected : Bool} {a : SiteAction} (hstep : x.step E connected a = some y) : y.sent = x.sent := by
  cases a with
  | thread k a => exact sent_stepThread hstep
  | drop delivered =>
    obtain ⟨-, hstep⟩ := Option.ite_none_left_eq_some.mp hstep
    cases hstep
    unfold Site.drop
    dsimp only
    split <;> rfl
  | dropSender =>
    obtain ⟨-, hstep⟩ := Option.ite_none_left_eq_some.mp hstep
    cases hstep
    rfl
  | closeQueue =>
    cases hstep
    rfl

/-- The miners by themselves. -/
theorem Sound.move (h : x.Sound E seeds) (hsent : ∀ b ∈ x.sent, E.Found seeds b) {move : SiteMove}
    (hseeds : ∀ delivered seed, move = .process delivered (some seed) → seeds seed) (hstep : x.move E move = some y) :
    y.Sound E seeds ∧ ∀ b ∈ y.sent, E.Found seeds b := by
  cases move with
  | process delivered block =>
    obtain ⟨-, hstep⟩ := Option.ite_none_right_eq_some.mp hstep
    cases hstep
    refine ⟨h.process delivered fun seed hseed => hseeds delivered seed (hseed ▸ rfl), ?_⟩
    rw [sent_process]
    exact hsent
  | act a =>
    refine ⟨h.step hstep, ?_⟩
    rw [sent_step hstep]
    exact hsent
  | forward =>
    obtain ⟨⟨b, z⟩, hforward, rfl⟩ := Option.map_eq_some_iff.mp hstep
    obtain ⟨hfound, hsound, hsent'⟩ := h.forward hforward
    refine ⟨hsound, fun c hc => ?_⟩
    rw [hsent'] at hc
    rcases List.mem_append.mp hc with hc | hc
    · exact hsent c hc
    · exact List.mem_singleton.mp hc ▸ hfound

end
end Site
end CryptixMiner.Miner
