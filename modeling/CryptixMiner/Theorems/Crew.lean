import CryptixMiner.Theorems.CrewThreads
import CryptixMiner.Theorems.Site

/-! What every step of the manager and its threads keeps: the channel is as it is in any run of its own, each thread
    is where its receiver is, a thread that obtained `Close` has stopped, and the manager waits for every thread that
    is still there. -/

namespace CryptixMiner.Miner
open StepSystem
open Watch (Told RxPc Receiver)

/-- What is given to `process_block` is a whole block, or comes with a partition to walk in. -/
def CrewAction.Walks : CrewAction → Prop
  | .process (some (.partialBlock _ _ _ _ _ nonceMask nonceFixed _)) => Walkable nonceMask nonceFixed
  | _ => True

/-- What the submission task, the connection, the client or the freeze handler does. -/
def CrewAction.quiet : CrewAction → Bool
  | .forward | .relay | .drain | .post | .closeQueue | .freeze _ => true
  | _ => false

structure Seated (r : Receiver (Command RpcBlock)) (t : Thread) : Prop where
  at_pc : t.At r.pc
  closed : ∀ o, r.history.head? = some o → o.value = some .close → t.stopped = true
  observed : ∀ g, t = .gpu g → g.lastObserved = r.lastObserved

theorem Seated.withPc {r : Receiver (Command RpcBlock)} {t : Thread} (h : Seated r t) {pc : RxPc} (hat : t.At pc) :
    Seated { r with pc := pc } t :=
  ⟨hat, h.closed, h.observed⟩

namespace Crew

structure Seats (n : Nat) (s : Crew) : Prop where
  regular : s.watch.Regular
  channel : s.site.channel = s.watch.shared.toPublished
  senderAlive : s.site.senderAlive = s.watch.shared.senderAlive
  seated : ∀ k r, s.watch.rx k = some r → Seated r (s.site.threads k)
  within : ∀ k, s.watch.rx k ≠ none → 1 ≤ k ∧ k ≤ n
  ended : ∀ k, 1 ≤ k → k ≤ n → s.watch.rx k = none → (s.site.threads k).stopped = true

/-- Every thread has a partition to walk in, and so has every job that one may get. -/
structure Walking (s : Crew) : Prop where
  threads : ∀ k, (s.site.threads k).Walks
  value : s.watch.shared.value.Walks
  sending : ∀ command, s.watch.sender = .replace command → command.Walks

section
variable {E : Setting} {s t : Crew} {n k : Nat} {a : CrewAction} {b : Watch.Action (Command RpcBlock)}
  {c : Watch.Channel (Command RpcBlock)} {site : Site} {command : Command RpcBlock}

/-! ### Threads and receivers -/

/-- A step of the channel, with whatever the threads have become. -/
theorem Seats.moved (h : s.Seats n) (hw : Watch.step s.watch b = some t.watch) (hclone : ∀ p j, b ≠ .clone p j)
    (hchannel : t.site.channel = t.watch.shared.toPublished)
    (halive : t.site.senderAlive = t.watch.shared.senderAlive)
    (hseated : ∀ k r, t.watch.rx k = some r → Seated r (t.site.threads k))
    (hkept : ∀ k, s.watch.rx k = none → t.site.threads k = s.site.threads k)
    (hdrop : ∀ k, b = .dropReceiver k → (t.site.threads k).stopped = true) : t.Seats n := by
  refine ⟨h.regular.kept hw, hchannel, halive, hseated, fun k hk => h.within k fun hnone => ?_,
    fun k hpos hle hnone => ?_⟩
  · exact hk (Watch.step_rx_none hw hclone hnone)
  · by_cases hk : s.watch.rx k = none
    · rw [hkept k hk]
      exact h.ended k hpos hle hk
    · exact hdrop k (Watch.step_rx_dropped hw hk hnone)

/-- A step beside the channel. -/
theorem Seats.beside (h : s.Seats n) (hwatch : t.watch = s.watch) (hchannel : t.site.channel = s.site.channel)
    (halive : t.site.senderAlive = s.site.senderAlive)
    (hseated : ∀ k r, s.watch.rx k = some r → Seated r (t.site.threads k))
    (hkept : ∀ k, s.watch.rx k = none → t.site.threads k = s.site.threads k) : t.Seats n := by
  refine ⟨?_, ?_, ?_, ?_, ?_, ?_⟩
  · rw [hwatch]
    exact h.regular
  · rw [hwatch, hchannel]
    exact h.channel
  · rw [hwatch, halive]
    exact h.senderAlive
  · rw [hwatch]
    exact hseated
  · rw [hwatch]
    exact h.within
  · intro k hpos hle hnone
    rw [hwatch] at hnone
    rw [hkept k hnone]
    exact h.ended k hpos hle hnone

/-- A step of the channel that tells no thread anything. -/
theorem Seats.watchStep (h : s.Seats n) (hs : s.watchStep b = some t) (hclone : ∀ p j, b ≠ .clone p j)
    (hreceiver : ∀ j, b ≠ .receiver j)
    (hget : ∀ j, b = .getChanged j → (s.site.threads j).call = some .getChanged)
    (hwait : ∀ j, b = .waitForChange j → (s.site.threads j).call = some .waitForChange)
    (hdrop : ∀ j, b = .dropReceiver j → (s.site.threads j).stopped = true) : t.Seats n := by
  obtain ⟨c, hw, rfl⟩ := Option.map_eq_some_iff.mp hs
  refine h.moved (t := s.setWatch c) hw hclone rfl rfl (fun k r hr => ?_) (fun _ _ => rfl) hdrop
  replace hr : c.rx k = some r := hr
  show Seated r (s.site.threads k)
  have hset : ∀ {j x}, (s.watch.setRx j (some x)).rx k = some r → (j = k → Seated x (s.site.threads k)) →
      Seated r (s.site.threads k) := fun {j x} hr hx => by
    rw [Watch.Channel.setRx_rx] at hr
    split at hr
    · next hk =>
      cases hr
      exact hx hk.symm
    · exact h.seated k r hr
  cases b with
  | send val =>
    obtain ⟨-, _, -, rfl⟩ := Watch.step_send hw
    exact h.seated k r hr
  | drop =>
    obtain ⟨-, rfl⟩ := Watch.step_drop hw
    exact h.seated k r hr
  | sender =>
    rcases Watch.senderStep_cases hw with ⟨_, _, rfl⟩ | ⟨_, _, _, rfl⟩ | ⟨_, _, rfl⟩ | ⟨_, _, rfl⟩
    · exact h.seated k r hr
    · exact h.seated k r hr
    · obtain ⟨x, hx, rfl⟩ := Option.map_eq_some_iff.mp hr
      have hseated := h.seated k x hx
      rcases x.wake_eq with ⟨hpc, heq⟩ | ⟨-, heq⟩
      · rw [heq]
        exact hseated.withPc (by have hat := hseated.at_pc; rwa [hpc] at hat)
      · rw [heq]
        exact hseated
    · exact h.seated k r hr
  | getChanged j =>
    obtain ⟨x, hx, rfl⟩ := Option.map_eq_some_iff.mp hw
    refine hset hr fun hj => ?_
    subst hj
    exact (h.seated j x (Watch.Channel.idleRx_eq_some.mp hx).1).withPc (hget j rfl)
  | waitForChange j =>
    obtain ⟨x, hx, rfl⟩ := Option.map_eq_some_iff.mp hw
    refine hset hr fun hj => ?_
    subst hj
    exact (h.seated j x (Watch.Channel.idleRx_eq_some.mp hx).1).withPc (hwait j rfl)
  | receiver j => exact absurd rfl (hreceiver j)
  | clone p j => exact absurd rfl (hclone p j)
  | dropReceiver j =>
    obtain ⟨x, -, rfl⟩ := Option.map_eq_some_iff.mp hw
    rw [Watch.Channel.setRx_rx] at hr
    split at hr
    · cases hr
    · exact h.seated k r hr
  | spurious j =>
    obtain ⟨x, hx, rfl⟩ := Option.map_eq_some_iff.mp hw
    obtain ⟨hx, hpc⟩ := Option.filter_eq_some_iff.mp hx
    refine hset hr fun hj => ?_
    subst hj
    have hseated := h.seated j x hx
    have hat := hseated.at_pc
    rw [of_decide_eq_true hpc] at hat
    exact hseated.withPc hat

/-- What a step of a receiver and its thread comes to. -/
structure Stepped (s t : Crew) (k : Nat) (r r' : Receiver (Command RpcBlock)) (u : Thread) : Prop where
  watch : Watch.step s.watch (.receiver k) = some t.watch
  channel : t.site.channel = t.watch.shared.toPublished
  senderAlive : t.site.senderAlive = t.watch.shared.senderAlive
  rx : s.watch.rx k = some r
  step : r.step k s.watch.shared = some (t.watch.shared, r')
  rx_eq : t.watch.rx = (s.watch.setRx k (some r')).rx
  sender : t.watch.sender = s.watch.sender
  threads : t.site.threads = Function.update s.site.threads k u
  queue : t.site.queue = s.site.queue
  queueOpen : t.site.queueOpen = s.site.queueOpen
  handles : t.handles = s.handles
  pc : t.pc = s.pc
  outlet : t.outlet = s.outlet
  killed : t.killed = s.killed
  told : (r.tells s.watch.shared = none ∧ u = s.site.threads k ∧ t.site = s.site) ∨
    ∃ told, r.tells s.watch.shared = some told ∧
      (s.site.threads k).Answered u s.watch.shared.value r'.lastObserved told ∧
      s.site.tell k r.lastObserved told = some t.site

/-- A receiver publishes nothing, so the threads have the channel as it was. -/
theorem Seats.site_eq {r r' : Receiver (Command RpcBlock)} {sh : Watch.Shared (Command RpcBlock)} {y : Site}
    (h : s.Seats n) (hstep : r.step k s.watch.shared = some (sh, r')) (hchannel : y.channel = s.site.channel)
    (halive : y.senderAlive = s.site.senderAlive) :
    { y with channel := sh.toPublished, senderAlive := sh.senderAlive } = y := by
  obtain ⟨hpub, hsender⟩ := Receiver.step_published hstep
  rw [hpub, hsender, ← h.channel, ← h.senderAlive, ← hchannel, ← halive]

theorem Seats.stepped (h : s.Seats n) (hs : s.channel k = some t) : ∃ r r' u, Stepped s t k r r' u := by
  obtain ⟨r, hr, hs⟩ := Option.bind_eq_some_iff.mp hs
  cases htells : r.tells s.watch.shared with
  | none =>
    simp only [htells] at hs
    obtain ⟨c, hw, rfl⟩ := Option.map_eq_some_iff.mp hs
    obtain ⟨x, r', hx, hstep, hsender, hrx⟩ := Watch.step_receiver hw
    cases hr.symm.trans hx
    exact ⟨r, r', s.site.threads k, hw, rfl, rfl, hr, hstep, hrx, hsender, (Function.update_eq_self k _).symm, rfl, rfl, rfl, rfl,
      rfl, rfl, Or.inl ⟨htells, rfl, h.site_eq hstep rfl rfl⟩⟩
  | some told =>
    simp only [htells] at hs
    obtain ⟨site, htell, hs⟩ := Option.bind_eq_some_iff.mp hs
    obtain ⟨c, hw, rfl⟩ := Option.map_eq_some_iff.mp hs
    obtain ⟨x, r', hx, hstep, hsender, hrx⟩ := Watch.step_receiver hw
    cases hr.symm.trans hx
    obtain ⟨y, u, hy, hmoved, hanswered⟩ := tell_at (h.seated k r hr).at_pc hstep htells
      (congrArg Watch.Published.id h.channel) h.senderAlive
    cases htell.symm.trans hy
    refine ⟨r, r', u, hw, rfl, rfl, hr, hstep, hrx, hsender, hmoved.threads, hmoved.queue, hmoved.queueOpen, rfl, rfl,
      rfl, rfl, Or.inr ⟨told, htells, ?_, ?_⟩⟩
    · rwa [h.channel] at hanswered
    · exact hy.trans (congrArg some (h.site_eq hstep hmoved.channel hmoved.senderAlive).symm)

/-- The thread that was told something is where its receiver is. -/
theorem Seats.seated_stepped {r r' : Receiver (Command RpcBlock)} {u : Thread} (h : s.Seats n)
    (hs : Stepped s t k r r' u) : Seated r' u := by
  have hseated := h.seated k r hs.rx
  rcases step_tells hs.step with ⟨site, htells, hpc, -, rfl⟩ | ⟨htells, hpc, -, rfl⟩ | ⟨site, htells, hpc, -, rfl⟩ |
    ⟨site, htells, hpc, rfl⟩ | ⟨htells, hhistory, hobserved, -, hat⟩
  · obtain ⟨hno, -⟩ | ⟨told, htold, hanswered, -⟩ := hs.told
    · cases hno.symm.trans htells
    cases htold.symm.trans htells
    have hstopped := hanswered.closed rfl
    refine ⟨?_, fun _ _ _ => hstopped, hanswered.observed⟩
    have hbetween : u.Between := by
      cases u with
      | cpu w => trivial
      | gpu g =>
        intro hclone
        rw [Thread.stopped, hclone] at hstopped
        cases hstopped
    cases site <;> exact hbetween
  · obtain ⟨hno, -⟩ | ⟨told, htold, hanswered, -⟩ := hs.told
    · cases hno.symm.trans htells
    cases htold.symm.trans htells
    refine ⟨hanswered.unchanged rfl, fun o ho hclose => ?_, hanswered.observed⟩
    -- A thread that had obtained `Close` would not be in a call.
    have hcall := hseated.at_pc
    rw [hpc] at hcall
    have hrunning := Thread.not_stopped_of_call hcall
    rw [hseated.closed o ho hclose] at hrunning
    cases hrunning
  · obtain ⟨hno, -⟩ | ⟨told, htold, hanswered, -⟩ := hs.told
    · cases hno.symm.trans htells
    cases htold.symm.trans htells
    have hcall := hseated.at_pc
    rw [hpc] at hcall
    refine ⟨hanswered.loaded rfl site hcall, fun o ho hclose => ?_, hanswered.observed⟩
    have hrunning := Thread.not_stopped_of_call hcall
    rw [hseated.closed o ho hclose] at hrunning
    cases hrunning
  · obtain ⟨hno, -⟩ | ⟨told, htold, hanswered, -⟩ := hs.told
    · cases hno.symm.trans htells
    cases htold.symm.trans htells
    obtain ⟨hbetween, hclosed⟩ := hanswered.cloned rfl
    refine ⟨?_, fun o ho hclose => ?_, hanswered.observed⟩
    · cases site <;> exact hbetween
    · cases ho
      exact hclosed hclose
  · obtain ⟨-, rfl, -⟩ | ⟨told, htold, -⟩ := hs.told
    · refine ⟨hat _ hseated.at_pc, fun o ho hclose => hseated.closed o (hhistory ▸ ho) hclose, fun g hg => ?_⟩
      rw [hobserved]
      exact hseated.observed g hg
    · cases htold.symm.trans htells

theorem Seats.channelStep (h : s.Seats n) (hs : s.channel k = some t) : t.Seats n := by
  obtain ⟨r, r', u, hstepped⟩ := h.stepped hs
  have hrx := hstepped.rx
  refine h.moved hstepped.watch nofun hstepped.channel hstepped.senderAlive (fun j x hx => ?_) (fun j hj => ?_) nofun
  · rw [hstepped.rx_eq, Watch.Channel.setRx_rx] at hx
    rw [hstepped.threads, Function.update_apply]
    split at hx
    · next hj =>
      cases hx
      rw [if_pos hj]
      exact h.seated_stepped hstepped
    · next hj =>
      rw [if_neg hj]
      exact h.seated j x hx
  · rw [hstepped.threads, Function.update_apply, if_neg]
    rintro rfl
    rw [hj] at hrx
    cases hrx

/-! ### Every step -/

theorem work_cases {a : ThreadAction} (hs : s.work E k a = some t) :
    ∃ r y u, s.watch.rx k = some r ∧ r.pc = .idle ∧ a.isWork = true ∧ s.site.stepThread E k a = some y ∧
      t = { s with site := y } ∧ s.site.Worked y k u ∧ u.Between ∧ (s.site.threads k).stopped = false ∧
      (∀ g', u = .gpu g' → ∃ g, s.site.threads k = .gpu g ∧ g'.lastObserved = g.lastObserved) ∧
      ((s.site.threads k).Walks → u.Walks ∧
        if s.relaunches E (.work k a) then
          u.left + 3 * y.queue.length ≤ (s.site.threads k).left + 3 * s.site.queue.length + 3
        else u.left + 3 * y.queue.length < (s.site.threads k).left + 3 * s.site.queue.length) := by
  have hmap : ∃ r, s.watch.idleRx k = some r ∧ a.isWork = true ∧
      (s.site.stepThread E k a).map (fun site => { s with site := site }) = some t := by
    unfold Crew.work at hs
    split at hs
    · next r hr => exact ⟨r, hr, rfl, hs⟩
    · next r _ _ hr => exact ⟨r, hr, rfl, hs⟩
    · next r hr => exact ⟨r, hr, rfl, hs⟩
    · cases hs
  obtain ⟨r, hidle, hwork, hmap⟩ := hmap
  obtain ⟨y, hy, rfl⟩ := Option.map_eq_some_iff.mp hmap
  obtain ⟨hr, hpc⟩ := Watch.Channel.idleRx_eq_some.mp hidle
  obtain ⟨u, hworked⟩ := stepThread_worked hy hwork
  exact ⟨r, y, u, hr, hpc, hwork, hy, rfl, hworked⟩

theorem Seats.workStep (h : s.Seats n) {a : ThreadAction} (hs : s.work E k a = some t) : t.Seats n := by
  obtain ⟨r, y, u, hr, hpc, -, -, rfl, hworked, hbetween, hrunning, hobserved, -⟩ := work_cases hs
  refine h.beside rfl hworked.channel hworked.senderAlive (fun j x hx => ?_) fun j hj => ?_
  · rw [hworked.threads, Function.update_apply]
    split
    · next hj =>
      subst hj
      cases hr.symm.trans hx
      refine ⟨hpc ▸ hbetween, fun o ho hclose => ?_, fun g' hg' => ?_⟩
      · rw [(h.seated j r hr).closed o ho hclose] at hrunning
        cases hrunning
      · obtain ⟨g, hg, heq⟩ := hobserved g' hg'
        exact heq.trans ((h.seated j r hr).observed g hg)
    · exact h.seated j x hx
  · rw [hworked.threads, Function.update_apply, if_neg]
    rintro rfl
    rw [hj] at hr
    cases hr

/-- `process_block` is called between two sends; it sends what it made of the block, or nothing. -/
theorem process_cases {block : Option (BlockSeed RpcBlock)} (hs : s.process E block = some t) :
    s.pc = .mining ∧ s.watch.sender = .idle ∧ ∃ manager : MinerManager,
      (t = { s with site := { s.site with manager := manager } } ∨
        ∃ command, { s with site := { s.site with manager := manager } }.watchStep (.send command) = some t ∧
          ∀ job, command = some (.job job) → ∃ id seed, block = some seed ∧ E.newOrPanic id seed = some (.ok job)) := by
  unfold Crew.process at hs
  split at hs
  case h_2 => cases hs
  next hpc hidle =>
  refine ⟨hpc, hidle, ({ s.site.manager with sent := none }.processBlock E.checks E.digest E.generate
    (s.watch.shared.receiversCount != 0) block).2, ?_⟩
  dsimp only at hs
  split at hs
  · next command hsent =>
    refine Or.inr ⟨command, hs, fun job hjob => ?_⟩
    rw [hjob] at hsent
    exact Site.processBlock_sent rfl hsent
  · cases hs
    exact Or.inl rfl

theorem walkable_full : Walkable 0xffffffffffffffff 0 := ⟨64, by decide, isPartition_full⟩

theorem walkable_of_new {id : Nat} {seed : BlockSeed RpcBlock} {job : State RpcBlock}
    (hnew : E.newOrPanic id seed = some (.ok job)) (hwalks : (CrewAction.process (some seed)).Walks) :
    Walkable job.nonceMask job.nonceFixed := by
  have hnew := State.new_of_newOrPanic hnew
  unfold State.new at hnew
  split at hnew
  · split at hnew
    · cases hnew
    · cases hnew
      exact walkable_full
  · cases hnew
    exact hwalks

theorem Seats.processStep (h : s.Seats n) {block : Option (BlockSeed RpcBlock)} (hs : s.process E block = some t) :
    t.Seats n := by
  obtain ⟨-, -, manager, rfl | ⟨command, hs, -⟩⟩ := process_cases hs
  · exact h.beside rfl rfl rfl h.seated fun _ _ => rfl
  · have hbeside : Seats n { s with site := { s.site with manager := manager } } :=
      h.beside rfl rfl rfl h.seated fun _ _ => rfl
    exact hbeside.watchStep hs nofun nofun nofun nofun nofun

theorem drop_cases (hs : s.drop = some t) : s.pc = .mining ∧ s.watch.sender = .idle ∧
    { s with site := { s.site with managerAlive := false }, pc := .closing }.watchStep (.send (some .close)) = some t := by
  unfold Crew.drop at hs
  split at hs
  · next hpc hidle => exact ⟨hpc, hidle, hs⟩
  · cases hs

theorem Seats.dropStep (h : s.Seats n) (hs : s.drop = some t) : t.Seats n := by
  obtain ⟨-, -, hs⟩ := drop_cases hs
  have hbeside : Seats n { s with site := { s.site with managerAlive := false }, pc := .closing } :=
    h.beside rfl rfl rfl h.seated fun _ _ => rfl
  exact hbeside.watchStep hs nofun nofun nofun nofun nofun

theorem gone_iff : s.gone k = true ↔ s.watch.rx k = none ∨ k ∈ s.killed := by
  rw [gone, Bool.or_eq_true, Option.isNone_iff_eq_none, List.contains_iff_mem]

/-- The manager goes on with a `send`, or with its drop. -/
theorem manager_cases (hs : s.manager = some t) :
    (s.pc ≠ .joining ∧ s.watchStep .sender = some t) ∨
    (s.pc = .closing ∧ s.watch.sender = .idle ∧ t = { s with pc := .joining }) ∨
    (s.pc = .joining ∧ ∃ k rest, s.handles = k :: rest ∧ (s.watch.rx k = none ∨ k ∈ s.killed) ∧
      t = { s with handles := rest }) ∨
    (s.pc = .joining ∧ s.handles = [] ∧ { s with pc := .dropping }.watchStep .drop = some t) := by
  unfold Crew.manager at hs
  split at hs
  · next hpc => exact Or.inl ⟨by rw [hpc]; nofun, hs⟩
  · next hpc => exact Or.inl ⟨by rw [hpc]; nofun, hs⟩
  · next hpc =>
    split at hs
    · next hidle =>
      cases hs
      exact Or.inr (Or.inl ⟨hpc, hidle, rfl⟩)
    · exact Or.inl ⟨by rw [hpc]; nofun, hs⟩
  · next hpc =>
    split at hs
    · next k rest hhandles =>
      obtain ⟨hgone, hs⟩ := Option.ite_none_right_eq_some.mp hs
      cases hs
      exact Or.inr (Or.inr (Or.inl ⟨hpc, k, rest, hhandles, gone_iff.mp hgone, rfl⟩))
    · next hhandles => exact Or.inr (Or.inr (Or.inr ⟨hpc, hhandles, hs⟩))

theorem Seats.managerStep (h : s.Seats n) (hs : s.manager = some t) : t.Seats n := by
  rcases manager_cases hs with ⟨-, hs⟩ | ⟨-, -, rfl⟩ | ⟨-, k, rest, -, -, rfl⟩ | ⟨-, -, hs⟩
  · exact h.watchStep hs nofun nofun nofun nofun nofun
  · exact h.beside rfl rfl rfl h.seated fun _ _ => rfl
  · exact h.beside rfl rfl rfl h.seated fun _ _ => rfl
  · have hbeside : Seats n { s with pc := .dropping } := h.beside rfl rfl rfl h.seated fun _ _ => rfl
    exact hbeside.watchStep hs nofun nofun nofun nofun nofun

/-- A thread starts the call that its loop is at. -/
theorem call_cases (hs : s.call k = some t) :
    ((s.site.threads k).call = some .waitForChange ∧ s.watchStep (.waitForChange k) = some t) ∨
    ((s.site.threads k).call = some .getChanged ∧ s.watchStep (.getChanged k) = some t) := by
  unfold Crew.call at hs
  split at hs
  · next hcall => exact Or.inl ⟨hcall, hs⟩
  · next hcall => exact Or.inr ⟨hcall, hs⟩
  · cases hs

theorem Seats.callStep (h : s.Seats n) (hs : s.call k = some t) : t.Seats n := by
  rcases call_cases hs with ⟨hcall, hs⟩ | ⟨hcall, hs⟩
  · refine h.watchStep hs nofun nofun nofun (fun j hj => ?_) nofun
    cases hj
    exact hcall
  · refine h.watchStep hs nofun nofun (fun j hj => ?_) nofun nofun
    cases hj
    exact hcall

/-- What the submission task, the connection, the client and the freeze handler do beside the manager and its threads. -/
structure Quiet (s t : Crew) : Prop where
  watch : t.watch = s.watch
  handles : t.handles = s.handles
  pc : t.pc = s.pc
  threads : t.site.threads = s.site.threads
  channel : t.site.channel = s.site.channel
  senderAlive : t.site.senderAlive = s.site.senderAlive
  queue : t.site.queue.length ≤ s.site.queue.length
  killed : ∀ k ∈ s.killed, k ∈ t.killed
  room : s.outlet.outgoing ≤ s.outlet.capacity → t.outlet.outgoing ≤ t.outlet.capacity

theorem forward_cases (hs : s.forward = some t) : s.outlet.held = false ∧ ∃ b rest, s.site.queue = b :: rest ∧
    t = { s with
      site := { s.site with queue := rest, log := .sent b :: s.site.log }, outlet := { s.outlet with held := true } } := by
  unfold forward at hs
  split at hs
  · cases hs
  next hheld =>
  obtain ⟨⟨b, site⟩, hsite, rfl⟩ := Option.map_eq_some_iff.mp hs
  unfold Site.forward at hsite
  split at hsite
  · next b' rest hqueue =>
    cases hsite
    exact ⟨Bool.eq_false_iff.mpr hheld, _, _, hqueue, rfl⟩
  · cases hsite

theorem post_cases (hs : s.post = some t) : s.pc = .mining ∧ s.outlet.outgoing < s.outlet.capacity ∧
    t = { s with outlet := { s.outlet with outgoing := s.outlet.outgoing + 1 } } := by
  unfold post at hs
  split at hs
  · next hpc _ =>
    obtain ⟨outlet, houtlet, rfl⟩ := Option.map_eq_some_iff.mp hs
    obtain ⟨hroom, houtlet⟩ := Option.ite_none_right_eq_some.mp houtlet
    cases houtlet
    exact ⟨hpc, hroom, rfl⟩
  · cases hs

theorem freeze_cases {aborts : Bool} (hs : s.freeze aborts = some t) : s.pc = .joining ∧
    ∃ k rest, s.handles = k :: rest ∧ s.watch.rx k ≠ none ∧ k ∉ s.killed ∧
      t = if aborts then { s with aborted := true } else { s with killed := k :: s.killed } := by
  unfold freeze at hs
  split at hs
  · next k rest hpc hhandles =>
    obtain ⟨hgone, hs⟩ := Option.ite_none_left_eq_some.mp hs
    cases hs
    rw [gone_iff, not_or] at hgone
    exact ⟨hpc, k, rest, hhandles, hgone.1, hgone.2, rfl⟩
  · cases hs

theorem quiet_of_act (ha : a.quiet = true) (hs : s.act E a = some t) : Quiet s t := by
  cases a with
  | forward =>
    obtain ⟨-, b, rest, hqueue, rfl⟩ := forward_cases hs
    refine ⟨rfl, rfl, rfl, rfl, rfl, rfl, ?_, fun _ hk => hk, fun hroom => hroom⟩
    rw [hqueue]
    exact Nat.le_succ _
  | relay =>
    obtain ⟨outlet, houtlet, rfl⟩ := Option.map_eq_some_iff.mp hs
    obtain ⟨⟨-, hless⟩, houtlet⟩ := Option.ite_none_right_eq_some.mp houtlet
    cases houtlet
    exact ⟨rfl, rfl, rfl, rfl, rfl, rfl, Nat.le_refl _, fun _ hk => hk, fun _ => hless⟩
  | drain =>
    obtain ⟨outlet, houtlet, rfl⟩ := Option.map_eq_some_iff.mp hs
    obtain ⟨-, houtlet⟩ := Option.ite_none_right_eq_some.mp houtlet
    cases houtlet
    exact ⟨rfl, rfl, rfl, rfl, rfl, rfl, Nat.le_refl _, fun _ hk => hk, fun hroom => Nat.le_trans (Nat.sub_le _ _) hroom⟩
  | post =>
    obtain ⟨-, hless, rfl⟩ := post_cases hs
    exact ⟨rfl, rfl, rfl, rfl, rfl, rfl, Nat.le_refl _, fun _ hk => hk, fun _ => hless⟩
  | closeQueue =>
    obtain ⟨-, hs⟩ := Option.ite_none_right_eq_some.mp hs
    cases hs
    exact ⟨rfl, rfl, rfl, rfl, rfl, rfl, Nat.zero_le _, fun _ hk => hk, fun hroom => hroom⟩
  | freeze aborts =>
    obtain ⟨-, k, rest, -, -, -, rfl⟩ := freeze_cases hs
    cases aborts with
    | true => exact ⟨rfl, rfl, rfl, rfl, rfl, rfl, Nat.le_refl _, fun _ hk => hk, fun hroom => hroom⟩
    | false => exact ⟨rfl, rfl, rfl, rfl, rfl, rfl, Nat.le_refl _, fun _ => List.mem_cons_of_mem k, fun hroom => hroom⟩
  | _ => cases ha

theorem Seats.quiet (h : s.Seats n) (hs : Quiet s t) : t.Seats n := by
  refine h.beside hs.watch hs.channel hs.senderAlive (fun k r hr => ?_) fun k _ => congrFun hs.threads k
  rw [hs.threads]
  exact h.seated k r hr

/-- A step is taken by a thread that is not killed, in a process that is not aborted. -/
theorem act_of_step (hs : s.step E a = some t) :
    s.aborted = false ∧ (∀ k, a.thread? = some k → k ∉ s.killed) ∧ s.act E a = some t := by
  obtain ⟨hstands, hs⟩ := Option.ite_none_left_eq_some.mp hs
  rw [Bool.or_eq_true, not_or] at hstands
  refine ⟨Bool.eq_false_iff.mpr hstands.1, fun k hk hmem => hstands.2 ?_, hs⟩
  rw [hk]
  exact List.contains_iff_mem.mpr hmem

theorem Seats.kept (h : s.Seats n) (hs : s.step E a = some t) : t.Seats n := by
  obtain ⟨-, -, hs⟩ := act_of_step hs
  cases a with
  | process block => exact h.processStep hs
  | drop => exact h.dropStep hs
  | manager => exact h.managerStep hs
  | call k => exact h.callStep hs
  | channel k => exact h.channelStep hs
  | work k a => exact h.workStep hs
  | exit k =>
    obtain ⟨hstopped, hs⟩ := Option.ite_none_right_eq_some.mp hs
    refine h.watchStep hs nofun nofun nofun nofun fun j hj => ?_
    cases hj
    exact hstopped
  | spurious k => exact h.watchStep hs nofun nofun nofun nofun nofun
  | forward | relay | drain | post | closeQueue | freeze => exact h.quiet (quiet_of_act rfl hs)

theorem start_seats (n capacity : Nat) (kinds : Nat → UInt64 ⊕ Bool) : (start n capacity kinds).Seats n := by
  have hrx : ∀ {k r}, (start n capacity kinds).watch.rx k = some r → (1 ≤ k ∧ k ≤ n) ∧ r = ⟨0, .idle, 0, []⟩ := fun {k r} hr => by
    simp only [start, Watch.spawned] at hr
    split at hr
    · next hk =>
      cases hr
      exact ⟨hk, rfl⟩
    · cases hr
  refine ⟨.of_reachable (Watch.spawned_reachable none n), rfl, rfl, fun k r hr => ?_, fun k hk => ?_,
    fun k hpos hle hnone => ?_⟩
  · obtain ⟨-, rfl⟩ := hrx hr
    refine ⟨?_, fun o ho => ?_, fun g hg => ?_⟩
    · show Thread.Between _
      simp only [start, Site.start]
      split
      · trivial
      · simp [Thread.Between, GpuWorker.start]
    · cases ho
    · simp only [start, Site.start] at hg
      split at hg
      · cases hg
      · cases hg
        rfl
  · obtain ⟨r, hr⟩ := Option.ne_none_iff_exists'.mp hk
    exact (hrx hr).1
  · simp only [start, Watch.spawned, if_pos (And.intro hpos hle)] at hnone
    cases hnone

/-! ### The partitions -/

/-- A step of the channel changes no job. -/
theorem Walking.watchStep (h : s.Walking) (hw : Watch.step s.watch b = some t.watch)
    (hsend : ∀ command, b = .send command → command.Walks) (hthreads : ∀ k, (t.site.threads k).Walks) : t.Walking := by
  refine ⟨hthreads, ?_, fun command hc => ?_⟩
  · rcases Watch.step_published hw with hpub | ⟨-, -, command, hc, hpub⟩
    · rw [hpub]
      exact h.value
    · rw [hpub]
      exact h.sending command hc
  · rcases Watch.step_replace hw hc with hb | hc
    · exact hsend command hb
    · exact h.sending command hc

/-- One thread has become another. -/
theorem Walking.updated (h : s.Walking) {u : Thread} (hu : u.Walks) (j : Nat) :
    (Function.update s.site.threads k u j).Walks := by
  rw [Function.update_apply]
  split
  · exact hu
  · exact h.threads j

theorem Walking.kept (h : s.Walking) (hseats : s.Seats n) (hwalks : a.Walks) (hs : s.step E a = some t) :
    t.Walking := by
  have hstep : ∀ {b} {s' : Crew}, s'.watchStep b = some t → s'.watch = s.watch → s'.site.threads = s.site.threads →
      (∀ command, b = .send command → command.Walks) → t.Walking := fun {b s'} hs hwatch hthreads hsend => by
    obtain ⟨c, hw, rfl⟩ := Option.map_eq_some_iff.mp hs
    rw [hwatch] at hw
    refine h.watchStep (t := s'.setWatch c) hw hsend ?_
    show ∀ k, (s'.site.threads k).Walks
    rw [hthreads]
    exact h.threads
  obtain ⟨-, -, hs⟩ := act_of_step hs
  cases a with
  | process block =>
    obtain ⟨-, -, manager, rfl | ⟨command, hs, hjob⟩⟩ := process_cases hs
    · exact ⟨h.threads, h.value, h.sending⟩
    · refine hstep hs rfl rfl fun sent hsent job heq => ?_
      cases hsent
      obtain ⟨id, seed, rfl, hnew⟩ := hjob job heq
      exact walkable_of_new hnew hwalks
  | drop =>
    obtain ⟨-, -, hs⟩ := drop_cases hs
    refine hstep hs rfl rfl fun sent hsent => ?_
    cases hsent
    exact nofun
  | manager =>
    rcases manager_cases hs with ⟨-, hs⟩ | ⟨-, -, rfl⟩ | ⟨-, k, rest, -, -, rfl⟩ | ⟨-, -, hs⟩
    · exact hstep hs rfl rfl nofun
    · exact ⟨h.threads, h.value, h.sending⟩
    · exact ⟨h.threads, h.value, h.sending⟩
    · exact hstep hs rfl rfl nofun
  | call k =>
    rcases call_cases hs with ⟨-, hs⟩ | ⟨-, hs⟩
    · exact hstep hs rfl rfl nofun
    · exact hstep hs rfl rfl nofun
  | channel k =>
    obtain ⟨r, r', u, hstepped⟩ := hseats.stepped hs
    refine h.watchStep hstepped.watch nofun ?_
    rw [hstepped.threads]
    refine h.updated ?_
    rcases hstepped.told with ⟨-, rfl, -⟩ | ⟨told, -, hanswered, -⟩
    · exact h.threads k
    · exact hanswered.walks (h.threads k) h.value
  | work k a =>
    obtain ⟨r, y, u, -, -, -, -, rfl, hworked, -, -, -, hleft⟩ := work_cases hs
    refine ⟨?_, h.value, h.sending⟩
    show ∀ j, (y.threads j).Walks
    rw [hworked.threads]
    exact h.updated (hleft (h.threads k)).1
  | exit k => exact hstep (Option.ite_none_right_eq_some.mp hs).2 rfl rfl nofun
  | spurious k => exact hstep hs rfl rfl nofun
  | forward | relay | drain | post | closeQueue | freeze =>
    have hquiet := quiet_of_act rfl hs
    refine ⟨?_, ?_, ?_⟩
    · rw [hquiet.threads]
      exact h.threads
    · rw [hquiet.watch]
      exact h.value
    · rw [hquiet.watch]
      exact h.sending

end
end Crew
end CryptixMiner.Miner