import CryptixMiner.Theorems.Shutdown

/-! The miners at the grain of their channel do nothing that they do not do where a command is published, and a reply
    read, in one step. A `send` under way has not happened there yet; every other step happens as it is taken. -/

namespace CryptixMiner.Miner
open StepSystem
open Watch (Told Receiver)

/-- What an action gives to the manager. -/
def CrewAction.given : CrewAction → List (Option (BlockSeed RpcBlock))
  | .process block => [block]
  | _ => []

def SiteMove.given : SiteMove → List (Option (BlockSeed RpcBlock))
  | .process _ block => [block]
  | .act _ | .forward => []

/-! ### The manager and the threads -/

namespace Site

/-- The same miners with another manager. -/
def under (x : Site) (manager : MinerManager) (alive : Bool) : Site :=
  { x with manager := manager, managerAlive := alive }

section
variable {E : Setting} {x y : Site} {k : Nat} {b : BlockSeed RpcBlock} {w : CpuWorker RpcBlock} {g : GpuWorker RpcBlock}
  {next dead : Thread} {a : ThreadAction} {told : Told} {lastObserved : UInt64}

theorem took_under (x : Site) (k : Nat) (job : Bool) (manager : MinerManager) (alive : Bool) :
    (x.under manager alive).took k job = (x.took k job).under manager alive := by
  unfold took
  split <;> rfl

theorem handOver_under (manager : MinerManager) (alive : Bool) (h : x.handOver E k b next dead = some y) :
    (x.under manager alive).handOver E k b next dead = some (y.under manager alive) := by
  unfold handOver at h ⊢
  split at h
  · next hopen =>
    rw [if_pos (by exact hopen)]
    split at h
    · next hempty =>
      rw [if_pos (by exact hempty)]
      dsimp only at h ⊢
      split at h
      · cases h
        rfl
      · cases h
        rfl
    · cases h
  · next hclosed =>
    rw [if_neg (by exact hclosed)]
    cases h
    rfl

theorem cpuReply_under {r : Reply} (manager : MinerManager) (alive : Bool) (h : x.cpuReply k w r = some y) :
    (x.under manager alive).cpuReply k w r = some (y.under manager alive) := by
  obtain ⟨action, haction, h⟩ := Option.bind_eq_some_iff.mp h
  obtain ⟨w', hw', h⟩ := Option.bind_eq_some_iff.mp h
  cases h
  have haction' : (x.under manager alive).cpuCall w r = some action := haction
  rw [cpuReply_of_step haction' hw', took_under]
  rfl

theorem cpuHash_under (manager : MinerManager) (alive : Bool) (h : x.cpuHash E k w = some y) :
    (x.under manager alive).cpuHash E k w = some (y.under manager alive) := by
  unfold cpuHash at h ⊢
  split at h
  case h_2 => cases h
  split at h
  · cases h
    rfl
  · cases h
    rfl
  · exact handOver_under manager alive h

theorem gpuLaunch_under {report : Report} {builds : Bool} (manager : MinerManager) (alive : Bool)
    (h : x.gpuLaunch E k g report builds = some y) :
    (x.under manager alive).gpuLaunch E k g report builds = some (y.under manager alive) := by
  unfold gpuLaunch at h ⊢
  split at h
  case h_2 => cases h
  dsimp only at h ⊢
  split at h
  · cases h
    rfl
  · cases h
    rfl
  · cases h
    rfl
  · split at h
    · next hzero =>
      rw [if_pos hzero]
      cases h
      rfl
    · next hne =>
      rw [if_neg hne]
      split at h
      · cases h
        rfl
      · cases h
        rfl
      · exact handOver_under manager alive h

theorem gpuChannel_under (manager : MinerManager) (alive : Bool) (h : x.gpuChannel k g = some y) :
    (x.under manager alive).gpuChannel k g = some (y.under manager alive) := by
  unfold gpuChannel at h ⊢
  split at h
  · cases h
  · obtain ⟨g', hg', rfl⟩ := Option.map_eq_some_iff.mp h
    rw [hg', took_under]
    rfl

/-- The threads do not ask who the manager is. -/
theorem stepThread_under (manager : MinerManager) (alive : Bool) (h : x.stepThread E k a = some y) :
    (x.under manager alive).stepThread E k a = some (y.under manager alive) := by
  unfold stepThread at h ⊢
  rw [show (x.under manager alive).threads = x.threads from rfl]
  split at h
  · exact cpuReply_under manager alive h
  · exact cpuHash_under manager alive h
  · exact gpuLaunch_under manager alive h
  · exact gpuChannel_under manager alive h
  · unfold gpuUnwind at h ⊢
    split at h <;> cases h
    rfl
  · cases h

theorem forward_under (manager : MinerManager) (alive : Bool) (h : x.forward = some (b, y)) :
    (x.under manager alive).forward = some (b, y.under manager alive) := by
  unfold forward at h ⊢
  rw [show (x.under manager alive).queue = x.queue from rfl]
  split at h
  · cases h
    rfl
  · cases h

theorem forward_manager (h : x.forward = some (b, y)) : y.manager = x.manager ∧ y.managerAlive = x.managerAlive := by
  have hsame : y = y.under x.manager x.managerAlive :=
    congrArg Prod.snd (Option.some.inj (h.symm.trans (forward_under x.manager x.managerAlive h)))
  rw [hsame]
  exact ⟨rfl, rfl⟩

/-- Nor do they change who it is. -/
theorem stepThread_manager (h : x.stepThread E k a = some y) :
    y.manager = x.manager ∧ y.managerAlive = x.managerAlive := by
  have hsame : y = y.under x.manager x.managerAlive :=
    Option.some.inj (h.symm.trans (stepThread_under x.manager x.managerAlive h))
  rw [hsame]
  exact ⟨rfl, rfl⟩

/-- What a receiver tells a thread is a step of the thread, or nothing to it yet. -/
theorem stepThread_of_tell (hobserved : ∀ g, x.threads k = .gpu g → g.lastObserved = lastObserved)
    (halive : x.senderAlive = true) (hopen : told ≠ .closed) (h : x.tell k lastObserved told = some y) :
    y = x ∨ ∃ a, x.stepThread E k a = some y := by
  unfold tell at h
  unfold stepThread
  cases hk : x.threads k with
  | cpu w =>
    rw [hk] at h
    cases told with
    | closed => exact absurd rfl hopen
    | loaded =>
      cases h
      exact Or.inl rfl
    | unchanged => exact Or.inr ⟨.reply .unchanged, h⟩
    | cloned => exact Or.inr ⟨.reply .changed, h⟩
  | gpu g =>
    rw [hk] at h
    refine Or.inr ⟨.channel, ?_⟩
    have htold : (told != .closed) = true := bne_iff_ne.mpr hopen
    dsimp only at h ⊢
    rw [halive]
    rwa [htold, ← hobserved g hk] at h

end
end Site

namespace Crew

/-- What `x` has not come to yet when `y` is about to publish the command. -/
inductive Behind (E : Setting) (x y : Site) : Command RpcBlock → List (Option (BlockSeed RpcBlock)) → Prop where
  | process {command : Command RpcBlock} (block : Option (BlockSeed RpcBlock)) (hsent : y.manager.sent = some command)
      (hmanager : ({ x.manager with sent := none }.processBlock E.checks E.digest E.generate true block).2 = y.manager)
      (hx : x.managerAlive = true) (hy : y.managerAlive = true) : Behind E x y command [block]
  | drop (hmanager : x.manager = y.manager) (hy : y.managerAlive = false) : Behind E x y (some .close) []

/-- The miners of the crew are those of `x`, but for a `send` under way. -/
structure Follows (E : Setting) (s : Crew) (x : Site) (behind : List (Option (BlockSeed RpcBlock))) : Prop where
  same : s.site = x.under s.site.manager s.site.managerAlive
  mining : s.site.managerAlive = true ↔ s.pc = .mining
  level : (∀ command, s.watch.sender ≠ .replace command) → x = s.site ∧ behind = []
  ahead : ∀ command, s.watch.sender = .replace command → Behind E x s.site command behind

section
variable {E : Setting} {s t : Crew} {n capacity k : Nat} {a : CrewAction} {b : Watch.Action (Command RpcBlock)} {x y : Site}
  {behind : List (Option (BlockSeed RpcBlock))} {command : Command RpcBlock}

theorem Behind.publish (h : Behind E x y command behind) (hsame : y = x.under y.manager y.managerAlive) :
    ∃ move, x.move E move = some (y.publish command) ∧ move.given = behind := by
  cases h with
  | process block hsent hmanager hx hy =>
    refine ⟨.process true block, (if_pos hx).trans ?_, rfl⟩
    have hy' : ({ x with manager := y.manager } : Site) = y := by
      rw [hsame, hy, ← hx]
      rfl
    simp only [Site.process, hmanager, hsent, hy']
  | drop hmanager hy =>
    refine ⟨.act (.drop true), ?_, rfl⟩
    have hy' : ({ x with managerAlive := false } : Site) = y := by
      rw [hsame, hy, ← hmanager]
      rfl
    simp only [Site.move, Site.step, Site.drop, Bool.false_eq_true, if_false, if_true, hy']

theorem Follows.of_level (hmining : s.site.managerAlive = true ↔ s.pc = .mining)
    (hlevel : ∀ command, s.watch.sender ≠ .replace command) : Follows E s s.site [] :=
  ⟨rfl, hmining, fun _ => ⟨rfl, rfl⟩, fun command hc => absurd hc (hlevel command)⟩

/-- A step that no thread notices, and that neither starts nor ends a `send`. -/
theorem Follows.stutter (h : Follows E s x behind) (hsite : t.site = s.site) (hpc : t.pc = .mining ↔ s.pc = .mining)
    (hsender : ∀ command, t.watch.sender = .replace command ↔ s.watch.sender = .replace command) :
    Follows E t x behind := by
  refine ⟨?_, ?_, fun hlevel => ?_, fun command hc => ?_⟩
  · rw [hsite]
    exact h.same
  · rw [hsite, hpc]
    exact h.mining
  · rw [hsite]
    exact h.level fun command hc => hlevel command ((hsender command).mpr hc)
  · rw [hsite]
    exact h.ahead command ((hsender command).mp hc)

/-- A step of a thread or of the submission task. -/
theorem Follows.moved (h : Follows E s x behind) (hmanager : y.manager = x.manager)
    (halive : y.managerAlive = x.managerAlive) (hsite : t.site = y.under s.site.manager s.site.managerAlive)
    (hsender : t.watch.sender = s.watch.sender) (hpc : t.pc = s.pc) : Follows E t y behind := by
  refine ⟨?_, ?_, fun hlevel => ?_, fun command hc => ?_⟩
  · rw [hsite]
    rfl
  · rw [hsite, hpc]
    exact h.mining
  · rw [hsender] at hlevel
    obtain ⟨hx, hbehind⟩ := h.level hlevel
    refine ⟨?_, hbehind⟩
    rw [hsite, ← hx, ← hmanager, ← halive]
    rfl
  · rw [hsender] at hc
    have hbehind := h.ahead command hc
    rw [hsite]
    cases hbehind with
    | process block hsent hm hx hy => exact .process block hsent (by rw [hmanager]; exact hm) (halive.trans hx) hy
    | drop hm hy => exact .drop (hmanager.trans hm) hy

/-- Nobody is told that the sender is gone: it goes when every thread has ended. -/
theorem Managed.senderAlive {r : Receiver (Command RpcBlock)} (h : s.Managed n) (hseats : s.Seats n)
    (hr : s.watch.rx k = some r) (hstands : k ∉ s.killed) : s.watch.shared.senderAlive = true := by
  rw [hseats.regular.alive]
  by_cases hpc : s.pc = .dropping
  · have hmem := (h.handles k (by rw [hr]; nofun)).resolve_right hstands
    rw [(h.dropping hpc).2] at hmem
    cases hmem
  · rw [h.sending hpc]
    rfl

theorem Seats.watchStep_site (h : s.Seats n) (hs : s.watchStep b = some t)
    (hpub : t.watch.shared.toPublished = s.watch.shared.toPublished)
    (halive : t.watch.shared.senderAlive = s.watch.shared.senderAlive) : t.site = s.site := by
  obtain ⟨c, -, rfl⟩ := Option.map_eq_some_iff.mp hs
  have hpub : c.shared.toPublished = s.watch.shared.toPublished := hpub
  have halive : c.shared.senderAlive = s.watch.shared.senderAlive := halive
  simp only [setWatch, hpub, halive, ← h.channel, ← h.senderAlive]

theorem processBlock_undelivered {m : MinerManager} (hm : m.sent = none) (block : Option (BlockSeed RpcBlock)) :
    (m.processBlock E.checks E.digest E.generate false block).2.sent = none := by
  cases block with
  | none =>
    simp only [MinerManager.processBlock]
    split <;> exact hm
  | some seed =>
    simp only [MinerManager.processBlock]
    split <;> exact hm

theorem send_cases (hs : s.watchStep (.send command) = some t) :
    t.watch.shared = s.watch.shared ∧ t.pc = s.pc ∧
      t.watch.sender = if s.watch.shared.receiversCount = 0 then .idle else .replace command := by
  obtain ⟨c, hw, rfl⟩ := Option.map_eq_some_iff.mp hs
  simp only [Watch.step] at hw
  split at hw
  · cases hw
    exact ⟨rfl, rfl, rfl⟩
  · cases hw

/-- The block is processed where it is given, unless that is to be published. -/
theorem Follows.processStep (h : Follows E s x behind) (hseats : s.Seats n) {block : Option (BlockSeed RpcBlock)}
    (hs : s.process E block = some t) : ∃ moves y behind', run (Site.move E) x moves = some y ∧ Follows E t y behind' ∧
      behind ++ [block] = moves.flatMap SiteMove.given ++ behind' := by
  unfold Crew.process at hs
  split at hs
  case h_2 => cases hs
  next hpc hidle =>
  obtain ⟨rfl, rfl⟩ := h.level fun command hc => nomatch hidle.symm.trans hc
  have halive := h.mining.mpr hpc
  dsimp only at hs
  split at hs
  · next command hsent =>
    have hcount : (s.watch.shared.receiversCount != 0) = true := by
      cases hcount : s.watch.shared.receiversCount != 0 with
      | true => rfl
      | false =>
        rw [hcount, processBlock_undelivered rfl] at hsent
        cases hsent
    rw [hcount] at hs hsent
    obtain ⟨hshared, hpc', hsender⟩ := send_cases hs
    rw [if_neg (bne_iff_ne.mp hcount)] at hsender
    have hbeside : Seats n { s with site := { s.site with manager :=
        ({ s.site.manager with sent := none }.processBlock E.checks E.digest E.generate true block).2 } } :=
      hseats.beside rfl rfl rfl hseats.seated fun _ _ => rfl
    have hsite := hbeside.watchStep_site hs (congrArg _ hshared) (congrArg _ hshared)
    refine ⟨[], s.site, [block], rfl, ⟨?_, ?_, fun hlevel => absurd hsender (hlevel command), fun command' hc => ?_⟩, rfl⟩
    · rw [hsite]
      rfl
    · rw [hsite, hpc']
      exact h.mining
    · cases hsender.symm.trans hc
      rw [hsite]
      exact .process block hsent rfl halive halive
  · next hnone =>
    cases hs
    have hfollows := Follows.of_level (E := E) (s := { s with site := { s.site with manager :=
      ({ s.site.manager with sent := none }.processBlock E.checks E.digest E.generate
        (s.watch.shared.receiversCount != 0) block).2 } }) h.mining fun command hc => nomatch hidle.symm.trans hc
    refine ⟨[.process (s.watch.shared.receiversCount != 0) block], _, [], ?_, hfollows, rfl⟩
    refine run_cons_iff.mpr ⟨_, (if_pos halive).trans ?_, rfl⟩
    simp only [Site.process, hnone]

theorem Follows.dropStep (h : Follows E s x behind) (hseats : s.Seats n) (hs : s.drop = some t) :
    ∃ moves y behind', run (Site.move E) x moves = some y ∧ Follows E t y behind' ∧
      behind = moves.flatMap SiteMove.given ++ behind' := by
  obtain ⟨-, hidle, hs⟩ := drop_cases hs
  obtain ⟨rfl, rfl⟩ := h.level fun command hc => nomatch hidle.symm.trans hc
  obtain ⟨hshared, hpc, hsender⟩ := send_cases hs
  have hbeside : Seats n { s with site := { s.site with managerAlive := false }, pc := .closing } :=
    hseats.beside rfl rfl rfl hseats.seated fun _ _ => rfl
  have hsite := hbeside.watchStep_site hs (congrArg _ hshared) (congrArg _ hshared)
  have hmining : t.site.managerAlive = true ↔ t.pc = .mining := by
    rw [hsite, hpc]
    exact iff_of_false nofun nofun
  by_cases hcount : s.watch.shared.receiversCount = 0
  · -- Nobody is left to hear it.
    have hidle := hsender.trans (if_pos hcount)
    have hfollows := Follows.of_level (E := E) hmining fun command hc => nomatch hidle.symm.trans hc
    rw [hsite] at hfollows
    exact ⟨[.act (.drop false)], _, [], rfl, hfollows, rfl⟩
  · replace hsender := hsender.trans (if_neg hcount)
    refine ⟨[], s.site, [], rfl, ⟨?_, hmining, fun hlevel => absurd hsender (hlevel _), fun command hc => ?_⟩, rfl⟩
    · rw [hsite]
      rfl
    · cases hsender.symm.trans hc
      rw [hsite]
      exact .drop rfl rfl

/-- A command happens where it is published, and the end of the sender where its flag falls. -/
theorem Follows.managerStep (h : Follows E s x behind) (hseats : s.Seats n) (hs : s.manager = some t) :
    ∃ moves y behind', run (Site.move E) x moves = some y ∧ Follows E t y behind' ∧
      behind = moves.flatMap SiteMove.given ++ behind' := by
  rcases manager_cases hs with ⟨-, hs⟩ | ⟨hpc, -, rfl⟩ | ⟨-, k, rest, -, -, rfl⟩ | ⟨hpc, -, hs⟩
  · have hs' := hs
    obtain ⟨c, hw, rfl⟩ := Option.map_eq_some_iff.mp hs
    have hother : (∀ command, s.watch.sender ≠ .replace command) → (∀ command, c.sender ≠ .replace command) →
        c.shared.toPublished = s.watch.shared.toPublished → c.shared.senderAlive = s.watch.shared.senderAlive →
        ∃ moves y behind', run (Site.move E) x moves = some y ∧ Follows E (s.setWatch c) y behind' ∧
          behind = moves.flatMap SiteMove.given ++ behind' := fun hbefore hafter hpub halive => by
      refine ⟨[], x, behind, rfl, h.stutter (hseats.watchStep_site hs' hpub halive) Iff.rfl fun command => ?_, rfl⟩
      exact iff_of_false (hafter command) (hbefore command)
    rcases Watch.senderStep_cases hw with ⟨command, hsender, rfl⟩ | ⟨_, hsender, _, rfl⟩ | ⟨_, hsender, rfl⟩ |
      ⟨dropping, hsender, rfl⟩
    · obtain ⟨move, hmove, hgiven⟩ := (h.ahead command hsender).publish h.same
      have hsite : s.site.publish command = { s.site with
          channel := s.watch.shared.toPublished.replaceValue command
          senderAlive := s.watch.shared.senderAlive } := by
        rw [← hseats.channel, ← hseats.senderAlive]
        rfl
      rw [hsite] at hmove
      refine ⟨[move], _, [], run_cons_iff.mpr ⟨_, hmove, rfl⟩, .of_level h.mining nofun, ?_⟩
      rw [List.flatMap_singleton, hgiven, List.append_nil]
    · exact hother (by rw [hsender]; nofun) nofun rfl rfl
    · exact hother (by rw [hsender]; nofun) nofun rfl rfl
    · exact hother (by rw [hsender]; nofun) (by cases dropping <;> nofun) rfl rfl
  · exact ⟨[], x, behind, rfl, h.stutter rfl (iff_of_false nofun (by rw [hpc]; nofun)) fun _ => Iff.rfl, rfl⟩
  · exact ⟨[], x, behind, rfl, h.stutter rfl Iff.rfl fun _ => Iff.rfl, rfl⟩
  · obtain ⟨c, hw, rfl⟩ := Option.map_eq_some_iff.mp hs
    obtain ⟨hidle, rfl⟩ := Watch.step_drop hw
    obtain ⟨rfl, rfl⟩ := h.level fun command hc => nomatch hidle.symm.trans hc
    have hdead : s.site.managerAlive ≠ true := fun halive => nomatch hpc.symm.trans (h.mining.mp halive)
    refine ⟨[.act .dropSender], { s.site with senderAlive := false }, [], ?_, ?_, rfl⟩
    · refine run_cons_iff.mpr ⟨_, ?_, rfl⟩
      simp only [Site.move, Site.step, Site.dropSender, if_neg hdead]
    · have hsite : ({ s.site with senderAlive := false } : Site) = { s.site with
          channel := s.watch.shared.toPublished, senderAlive := false } := by rw [← hseats.channel]
      rw [hsite]
      exact .of_level (iff_of_false hdead nofun) nofun

theorem Follows.under (h : Follows E s x behind) : s.site.under x.manager x.managerAlive = x := by
  rw [h.same]
  rfl

theorem Follows.threadStep (h : Follows E s x behind) {action : ThreadAction}
    (hs : s.site.stepThread E k action = some t.site) (hsender : t.watch.sender = s.watch.sender) (hpc : t.pc = s.pc) :
    ∃ moves y, run (Site.move E) x moves = some y ∧ Follows E t y behind ∧ moves.flatMap SiteMove.given = [] := by
  have hmove := Site.stepThread_under x.manager x.managerAlive hs
  rw [h.under] at hmove
  obtain ⟨hmanager, halive⟩ := Site.stepThread_manager hs
  refine ⟨[.act (.thread k action)], t.site.under x.manager x.managerAlive, run_cons_iff.mpr ⟨_, hmove, rfl⟩,
    h.moved rfl rfl ?_ hsender hpc, rfl⟩
  rw [← hmanager, ← halive]
  rfl

theorem Follows.channelStep (h : Follows E s x behind) (hseats : s.Seats n) (hmanaged : s.Managed n)
    (hstands : k ∉ s.killed) (hs : s.channel k = some t) :
    ∃ moves y, run (Site.move E) x moves = some y ∧ Follows E t y behind ∧ moves.flatMap SiteMove.given = [] := by
  obtain ⟨r, r', u, hstepped⟩ := hseats.stepped hs
  have hr := hstepped.rx
  have hstutter : t.site = s.site → ∃ moves y, run (Site.move E) x moves = some y ∧ Follows E t y behind ∧
      moves.flatMap SiteMove.given = [] := fun hsite =>
    ⟨[], x, rfl, h.stutter hsite (by rw [hstepped.pc]) fun _ => by rw [hstepped.sender], rfl⟩
  obtain ⟨-, -, hsite⟩ | ⟨told, htells, -, htell⟩ := hstepped.told
  · exact hstutter hsite
  have halive := hmanaged.senderAlive hseats hr hstands
  have hopen : told ≠ .closed := by
    rintro rfl
    rcases step_tells hstepped.step with ⟨_, -, -, hdead, -⟩ | ⟨htold, -⟩ | ⟨_, htold, -⟩ | ⟨_, htold, -⟩ | ⟨htold, -⟩
    · cases halive.symm.trans hdead
    all_goals cases htells.symm.trans htold
  rcases Site.stepThread_of_tell (E := E) (hseats.seated k r hr).observed (hseats.senderAlive.trans halive) hopen htell with
    hsite | ⟨a, ha⟩
  · exact hstutter hsite
  · exact h.threadStep ha hstepped.sender hstepped.pc

/-- A step of a thread with its receiver between two calls. -/
theorem Follows.watchStep (h : Follows E s x behind) (hseats : s.Seats n) (hs : s.watchStep b = some t)
    (hb : (∃ j, b = .getChanged j) ∨ (∃ j, b = .waitForChange j) ∨ (∃ j, b = .dropReceiver j) ∨ ∃ j, b = .spurious j) :
    ∃ moves y, run (Site.move E) x moves = some y ∧ Follows E t y behind ∧ moves.flatMap SiteMove.given = [] := by
  have hs' := hs
  obtain ⟨c, hw, rfl⟩ := Option.map_eq_some_iff.mp hs
  refine ⟨[], x, rfl, ?_, rfl⟩
  rcases hb with ⟨j, rfl⟩ | ⟨j, rfl⟩ | ⟨j, rfl⟩ | ⟨j, rfl⟩ <;>
    (obtain ⟨r, -, rfl⟩ := Option.map_eq_some_iff.mp hw
     exact h.stutter (hseats.watchStep_site hs' rfl rfl) Iff.rfl fun _ => Iff.rfl)

/-- Every step, one move of the miners or none. -/
theorem Follows.step (h : Follows E s x behind) (hseats : s.Seats n) (hmanaged : s.Managed n)
    (hs : s.step E a = some t) : ∃ moves y behind', run (Site.move E) x moves = some y ∧ Follows E t y behind' ∧
      behind ++ a.given = moves.flatMap SiteMove.given ++ behind' := by
  have hquiet : (∃ moves y, run (Site.move E) x moves = some y ∧ Follows E t y behind ∧
      moves.flatMap SiteMove.given = []) → a.given = [] → ∃ moves y behind', run (Site.move E) x moves = some y ∧
        Follows E t y behind' ∧ behind ++ a.given = moves.flatMap SiteMove.given ++ behind' :=
    fun ⟨moves, y, hrun, hfollows, hnone⟩ hgiven =>
      ⟨moves, y, behind, hrun, hfollows, by rw [hgiven, hnone, List.append_nil, List.nil_append]⟩
  obtain ⟨-, hstands, hs⟩ := act_of_step hs
  cases a with
  | process block => exact h.processStep hseats hs
  | drop =>
    obtain ⟨moves, y, behind', hrun, hfollows, hgiven⟩ := h.dropStep hseats hs
    exact ⟨moves, y, behind', hrun, hfollows, (List.append_nil _).trans hgiven⟩
  | manager =>
    obtain ⟨moves, y, behind', hrun, hfollows, hgiven⟩ := h.managerStep hseats hs
    exact ⟨moves, y, behind', hrun, hfollows, (List.append_nil _).trans hgiven⟩
  | call k =>
    rcases call_cases hs with ⟨-, hs⟩ | ⟨-, hs⟩
    · exact hquiet (h.watchStep hseats hs (Or.inr (Or.inl ⟨k, rfl⟩))) rfl
    · exact hquiet (h.watchStep hseats hs (Or.inl ⟨k, rfl⟩)) rfl
  | channel k => exact hquiet (h.channelStep hseats hmanaged (hstands k rfl) hs) rfl
  | work k action =>
    obtain ⟨r, y, u, -, -, -, hthread, rfl, -⟩ := work_cases hs
    exact hquiet (h.threadStep hthread rfl rfl) rfl
  | exit k =>
    have hs := (Option.ite_none_right_eq_some.mp hs).2
    exact hquiet (h.watchStep hseats hs (Or.inr (Or.inr (Or.inl ⟨k, rfl⟩)))) rfl
  | spurious k => exact hquiet (h.watchStep hseats hs (Or.inr (Or.inr (Or.inr ⟨k, rfl⟩)))) rfl
  | forward =>
    obtain ⟨-, hs⟩ := Option.ite_none_left_eq_some.mp hs
    obtain ⟨⟨b, z⟩, hsite, rfl⟩ := Option.map_eq_some_iff.mp hs
    have hmove := Site.forward_under x.manager x.managerAlive hsite
    rw [h.under] at hmove
    obtain ⟨hmanager, halive⟩ := Site.forward_manager hsite
    refine hquiet ⟨[.forward], z.under x.manager x.managerAlive,
      run_cons_iff.mpr ⟨_, Option.map_eq_some_iff.mpr ⟨_, hmove, rfl⟩, rfl⟩, h.moved rfl rfl ?_ rfl rfl, rfl⟩ rfl
    rw [← hmanager, ← halive]
    rfl
  | closeQueue =>
    obtain ⟨-, hs⟩ := Option.ite_none_right_eq_some.mp hs
    cases hs
    refine hquiet ⟨[.act .closeQueue], x.closeQueue, rfl, h.moved rfl rfl ?_ rfl rfl, rfl⟩ rfl
    calc s.site.closeQueue = (x.under s.site.manager s.site.managerAlive).closeQueue := by rw [← h.same]
      _ = x.closeQueue.under s.site.manager s.site.managerAlive := rfl
  | relay | drain =>
    obtain ⟨outlet, -, rfl⟩ := Option.map_eq_some_iff.mp hs
    exact hquiet ⟨[], x, rfl, h.stutter rfl Iff.rfl fun _ => Iff.rfl, rfl⟩ rfl
  | post =>
    obtain ⟨-, -, rfl⟩ := post_cases hs
    exact hquiet ⟨[], x, rfl, h.stutter rfl Iff.rfl fun _ => Iff.rfl, rfl⟩ rfl
  | freeze aborts =>
    obtain ⟨-, k, rest, -, -, -, rfl⟩ := freeze_cases hs
    refine hquiet ⟨[], x, rfl, ?_, rfl⟩ rfl
    cases aborts <;> exact h.stutter rfl Iff.rfl fun _ => Iff.rfl

theorem start_follows (n capacity : Nat) (kinds : Nat → UInt64 ⊕ Bool) :
    Follows E (start n capacity kinds) (.start kinds) [] :=
  .of_level (iff_of_true rfl rfl) nofun

theorem follows_of_run {kinds : Nat → UInt64 ⊕ Bool} {as : List CrewAction}
    (hrun : run (Crew.step E) (.start n capacity kinds) as = some s) : ∃ moves x behind,
      run (Site.move E) (.start kinds) moves = some x ∧ s.Seats n ∧ Follows E s x behind ∧
      as.flatMap CrewAction.given = moves.flatMap SiteMove.given ++ behind := by
  have hsimulated : ∃ moves x behind, run (Site.move E) (.start kinds) moves = some x ∧
      (s.Seats n ∧ s.Managed n ∧ Follows E s x behind) ∧
      as.flatMap CrewAction.given = moves.flatMap SiteMove.given ++ behind := by
    refine run_simulate (R := fun s x behind => s.Seats n ∧ s.Managed n ∧ Follows E s x behind)
      (fun s t x a behind hR hs => ?_) ⟨start_seats n capacity kinds, start_managed n capacity kinds,
        start_follows n capacity kinds⟩ hrun
    obtain ⟨hseats, hmanaged, hfollows⟩ := hR
    obtain ⟨moves, y, behind', hmoves, hfollows, hgiven⟩ := hfollows.step hseats hmanaged hs
    exact ⟨moves, y, behind', hmoves, ⟨hseats.kept hs, hmanaged.kept hseats hs, hfollows⟩, hgiven⟩
  obtain ⟨moves, x, behind, hmoves, ⟨hseats, -, hfollows⟩, hgiven⟩ := hsimulated
  exact ⟨moves, x, behind, hmoves, hseats, hfollows, hgiven⟩

theorem Behind.length_le (h : Behind E x y command behind) : behind.length ≤ 1 := by
  cases h with
  | process => exact Nat.le_refl 1
  | drop => exact Nat.zero_le 1

end

/-- Whatever the manager with its freeze handler, the threads, the submission task, the client and the connection do,
    one atomic step of the channel or of a thread at a time, the miners do where a command is published, and a reply
    read, in one step: the threads, the queue and what is published are the same, so is all that was found, taken and
    sent, and the blocks are processed in their order, but for one whose job is still to be published. Between two
    `send`s nothing is behind. -/
theorem site_follows (E : Setting) {n capacity : Nat} {kinds : Nat → UInt64 ⊕ Bool} {as : List CrewAction} {s : Crew}
    (hrun : run (Crew.step E) (.start n capacity kinds) as = some s) :
    ∃ moves x behind, run (Site.move E) (.start kinds) moves = some x ∧
      x.threads = s.site.threads ∧ x.queue = s.site.queue ∧ x.queueOpen = s.site.queueOpen ∧ x.log = s.site.log ∧
      x.channel = s.watch.shared.toPublished ∧ x.senderAlive = s.watch.shared.senderAlive ∧
      as.flatMap CrewAction.given = moves.flatMap SiteMove.given ++ behind ∧ behind.length ≤ 1 ∧
      ((∀ command, s.watch.sender ≠ .replace command) → x = s.site ∧ behind = []) := by
  obtain ⟨moves, x, behind, hmoves, hseats, hfollows, hgiven⟩ := follows_of_run hrun
  have hsame := hfollows.same
  have hlength : behind.length ≤ 1 := by
    by_cases hreplace : ∃ command, s.watch.sender = .replace command
    · obtain ⟨command, hc⟩ := hreplace
      exact (hfollows.ahead command hc).length_le
    · rw [(hfollows.level fun command hc => hreplace ⟨command, hc⟩).2]
      exact Nat.zero_le 1
  refine ⟨moves, x, behind, hmoves, ?_, ?_, ?_, ?_, ?_, ?_, hgiven, hlength, hfollows.level⟩
  · rw [hsame]
    rfl
  · rw [hsame]
    rfl
  · rw [hsame]
    rfl
  · rw [hsame]
    rfl
  · rw [← hseats.channel, hsame]
    rfl
  · rw [← hseats.senderAlive, hsame]
    rfl

/-- A template is processed; thread 1 waits for it, takes it and finds a nonce at once, which the task sends. -/
def processAndFind : List CrewAction :=
  let template := Pow.twoLevels "0123456789abcdef0123456789abcdef0123456789abcdef0123456789abcdef" "c3a1f"
  [.process (some (.fullBlock ⟨some template, [], none⟩)), .manager, .manager, .manager, .manager,
   .call 1, .channel 1, .channel 1, .channel 1, .work 1 .hash, .forward]

theorem site_follows_find : ∃ s moves x, run (Crew.step zeroHashes) (.start 1 2 fun _ => .inl 7) processAndFind = some s ∧
    run (Site.move zeroHashes) (.start fun _ => .inl 7) moves = some x ∧ x = s.site ∧
    moves.flatMap SiteMove.given = processAndFind.flatMap CrewAction.given := by
  have hrun : ((run (Crew.step zeroHashes) (.start 1 2 fun _ => .inl 7) processAndFind).map fun s =>
      s.watch.sender.rest) = some 0 := by decide +kernel
  obtain ⟨s, hs, hidle⟩ := Option.map_eq_some_iff.mp hrun
  obtain ⟨moves, x, behind, hmoves, -, -, -, -, -, -, hgiven, -, hlevel⟩ := site_follows zeroHashes hs
  obtain ⟨hx, rfl⟩ := hlevel fun command hc => by
    rw [hc] at hidle
    cases hidle
  exact ⟨s, moves, x, hs, hmoves, hx, by rw [hgiven, List.append_nil]⟩

/-- Over every such run: what the submission task has taken solves blocks that the manager was given; it is taken in
    the order in which the threads handed it over; a thread has handed over no more whole blocks than it has taken
    jobs, and works on no job but one of these; and the only panic over a block is that of its report, on a block that
    was found and has a date that the calendar does not reach. -/
theorem blocks_solve (E : Setting) {n capacity : Nat} {kinds : Nat → UInt64 ⊕ Bool} {as : List CrewAction} {s : Crew}
    (hrun : run (Crew.step E) (.start n capacity kinds) as = some s) :
    (∀ b ∈ s.site.sent, ∃ seed nonce, .process (some seed) ∈ as ∧ E.Solves seed b nonce) ∧
    s.site.sent <+: s.site.handed ∧
    (∀ k, s.site.log.countP (Event.hands k) ≤ s.site.log.countP (Event.takes k)) ∧
    (∀ k job, (s.site.threads k).state = some job →
      ∃ id seed, .process (some seed) ∈ as ∧ E.newOrPanic id seed = some (.ok job)) ∧
    (∀ k b, .panicked k b ∈ s.site.log → ∃ block header, b = some (.fullBlock block) ∧ block.header = some header ∧
      (∃ seed nonce, .process (some seed) ∈ as ∧ E.Solves seed (.fullBlock block) nonce) ∧
      E.date header.timestamp.toUInt64 = none) := by
  obtain ⟨moves, x, behind, hmoves, -, hfollows, hgiven⟩ := follows_of_run hrun
  have hseeds : ∀ delivered seed, .process delivered (some seed) ∈ moves → .process (some seed) ∈ as :=
    fun delivered seed hmem => by
      have hmem : some seed ∈ as.flatMap CrewAction.given := by
        rw [hgiven]
        exact List.mem_append_left _ (List.mem_flatMap.mpr ⟨_, hmem, List.mem_singleton_self _⟩)
      obtain ⟨a, ha, hseed⟩ := List.mem_flatMap.mp hmem
      cases a with
      | process block =>
        cases List.mem_singleton.mp hseed
        exact ha
      | _ => cases hseed
  have hx : x.Sound E (fun seed => .process (some seed) ∈ as) ∧
      ∀ b ∈ x.sent, E.Found (fun seed => .process (some seed) ∈ as) b := by
    refine run_inv (I := fun x : Site => x.Sound E (fun seed => .process (some seed) ∈ as) ∧
      ∀ b ∈ x.sent, E.Found (fun seed => .process (some seed) ∈ as) b) hmoves
      ⟨Site.start_sound kinds, nofun⟩ fun pre move post u v hsplit _ hu hv => ?_
    exact hu.1.move hu.2 (fun delivered seed hmove => hseeds delivered seed
      (hsplit ▸ hmove ▸ List.mem_append_right pre (List.mem_cons_self ..))) hv
  obtain ⟨hsound, hfound⟩ := hx
  have hsame := hfollows.same
  have hsent : s.site.sent = x.sent := by
    rw [hsame]
    rfl
  have hhanded : s.site.handed = x.handed := by
    rw [hsame]
    rfl
  have hlog : s.site.log = x.log := by
    rw [hsame]
    rfl
  have hthreads : s.site.threads = x.threads := by
    rw [hsame]
    rfl
  rw [hsent, hhanded, hlog, hthreads]
  refine ⟨fun b hb => ?_, ?_, fun k => ?_, fun k job hjob => ?_, fun k b hb => ?_⟩
  · obtain ⟨seed, nonce, hgiven, hsolves⟩ := hfound b hb
    exact ⟨seed, nonce, hgiven, hsolves⟩
  · exact hsound.sent_prefix
  · exact Nat.le_trans (Nat.le_add_right _ _) (hsound.counted k)
  · obtain ⟨id, seed, hgiven, hnew⟩ := hsound.threads k job hjob
    exact ⟨id, seed, hgiven, hnew⟩
  · obtain ⟨block, header, hblock, hheader, ⟨seed, nonce, hgiven, hsolves⟩, hdate⟩ := hsound.panics k b hb
    exact ⟨block, header, hblock, hheader, ⟨seed, nonce, hgiven, hsolves⟩, hdate⟩

theorem blocks_solve_find : ∃ s seed nonce b, run (Crew.step zeroHashes) (.start 1 2 fun _ => .inl 7) processAndFind = some s ∧
    s.site.sent = [b] ∧ .process (some seed) ∈ processAndFind ∧ zeroHashes.Solves seed b nonce := by
  have hlength : ((run (Crew.step zeroHashes) (.start 1 2 fun _ => .inl 7) processAndFind).map fun s =>
      s.site.sent.length) = some 1 := by decide +kernel
  obtain ⟨s, hs, hone⟩ := Option.map_eq_some_iff.mp hlength
  obtain ⟨b, hb⟩ := List.length_eq_one_iff.mp hone
  obtain ⟨seed, nonce, hgiven, hsolves⟩ := (blocks_solve zeroHashes hs).1 b (hb ▸ List.mem_singleton_self b)
  exact ⟨s, seed, nonce, b, hs, hb, hgiven, hsolves⟩

end Crew
end CryptixMiner.Miner
