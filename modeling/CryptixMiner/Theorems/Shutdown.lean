import CryptixMiner.Theorems.Crew
import Mathlib.Algebra.BigOperators.Group.Finset.Basic

/-! The drop of the manager. Once `Close` is published no thread goes back to its work, every step of anyone brings the
    end nearer, and until the end there is a step to take: so every `join` returns, and the drop does. -/

namespace CryptixMiner.Miner
open StepSystem
open Watch (Told RxPc Receiver)
open Finset (range)

namespace Crew

/-- The drop has begun, and its `Close` is published, or nobody was left to hear it. -/
def Told (s : Crew) : Prop := s.pc ≠ .mining ∧ ∀ command, s.watch.sender ≠ .replace command

/-- Where the manager is with its `send`s and joins. -/
structure Managed (n : Nat) (s : Crew) : Prop where
  handles : ∀ k, s.watch.rx k ≠ none → k ∈ s.handles ∨ k ∈ s.killed
  length : s.handles.length ≤ n
  queue : s.site.queue.length ≤ 1
  room : s.outlet.outgoing ≤ s.outlet.capacity
  sending : s.pc ≠ .dropping → s.watch.sender.quits = false
  joining : s.pc = .joining → s.watch.sender = .idle
  dropping : s.pc = .dropping → s.watch.sender.quits = true ∧ s.handles = []
  close : s.pc ≠ .mining → ∀ command, s.watch.sender = .replace command → command = some .close
  told : s.Told → s.watch.shared.value = some .close ∨ ∀ k, s.watch.rx k = none

section
variable {E : Setting} {s t : Crew} {n capacity k : Nat} {a : CrewAction} {b : Watch.Action (Command RpcBlock)}

/-! ### The manager -/

/-- A step of someone else. -/
theorem Managed.beside (h : s.Managed n) (hsender : t.watch.sender = s.watch.sender)
    (hvalue : t.watch.shared.value = s.watch.shared.value)
    (hrx : ∀ k, s.watch.rx k = none → t.watch.rx k = none) (hpc : t.pc = s.pc) (hhandles : t.handles = s.handles)
    (hqueue : t.site.queue.length ≤ 1) (hroom : t.outlet.outgoing ≤ t.outlet.capacity)
    (hkilled : ∀ k ∈ s.killed, k ∈ t.killed) : t.Managed n := by
  refine ⟨fun k hk => ?_, ?_, hqueue, hroom, ?_, ?_, ?_, ?_, fun htold => ?_⟩
  · rw [hhandles]
    exact (h.handles k fun hnone => hk (hrx k hnone)).imp_right (hkilled k)
  · rw [hhandles]
    exact h.length
  · rw [hpc, hsender]
    exact h.sending
  · rw [hpc, hsender]
    exact h.joining
  · rw [hpc, hsender, hhandles]
    exact h.dropping
  · rw [hpc, hsender]
    exact h.close
  · rw [hvalue]
    refine (h.told ⟨hpc ▸ htold.1, fun command => hsender ▸ htold.2 command⟩).imp_right fun hnone k => hrx k (hnone k)

/-- A step of a thread with its receiver between two calls. -/
theorem Managed.watchStep (h : s.Managed n) (hs : s.watchStep b = some t)
    (hb : (∃ j, b = .getChanged j) ∨ (∃ j, b = .waitForChange j) ∨ (∃ j, b = .dropReceiver j) ∨ ∃ j, b = .spurious j) :
    t.Managed n := by
  obtain ⟨c, hw, rfl⟩ := Option.map_eq_some_iff.mp hs
  have hrx : ∀ k, s.watch.rx k = none → c.rx k = none := fun k hk => by
    refine Watch.step_rx_none hw (fun p j hclone => ?_) hk
    rcases hb with ⟨_, rfl⟩ | ⟨_, rfl⟩ | ⟨_, rfl⟩ | ⟨_, rfl⟩ <;> cases hclone
  rcases hb with ⟨j, rfl⟩ | ⟨j, rfl⟩ | ⟨j, rfl⟩ | ⟨j, rfl⟩ <;>
    (obtain ⟨r, -, rfl⟩ := Option.map_eq_some_iff.mp hw
     exact h.beside rfl rfl hrx rfl rfl h.queue h.room fun _ hk => hk)

theorem Managed.send (h : s.Managed n) (hidle : s.watch.sender = .idle) (hcounted : s.watch.Counted)
    {pc : ManagerPc} (hpc : pc = .mining ∨ pc = .closing) (site : Site) (hsite : site.queue = s.site.queue)
    {command : Command RpcBlock} (hclose : pc = .closing → command = some .close)
    (hs : { s with site := site, pc := pc }.watchStep (.send command) = some t) : t.Managed n := by
  obtain ⟨c, hw, rfl⟩ := Option.map_eq_some_iff.mp hs
  have hsend : c = { s.watch with sender := if s.watch.shared.receiversCount = 0 then .idle else .replace command } := by
    simp only [Watch.step, hidle] at hw
    exact (Option.some.inj hw).symm
  have hne : pc ≠ .joining ∧ pc ≠ .dropping := by rcases hpc with rfl | rfl <;> decide
  subst hsend
  refine ⟨h.handles, h.length, ?_, h.room, fun _ => ?_, fun hj => absurd hj hne.1, fun hd => absurd hd hne.2,
    fun hm command' hc => ?_, fun htold => ?_⟩
  · show site.queue.length ≤ 1
    rw [hsite]
    exact h.queue
  · simp only [setWatch]
    split <;> rfl
  · simp only [setWatch] at hc
    split at hc
    · cases hc
    · cases hc
      exact hclose (hpc.resolve_left hm)
  · refine Or.inr fun k => hcounted.rx_none ?_ k
    by_contra hcount
    exact htold.2 command (if_neg hcount)

theorem Managed.managerStep (h : s.Managed n) (hs : s.manager = some t) : t.Managed n := by
  rcases manager_cases hs with ⟨hpc, hs⟩ | ⟨hpc, hidle, rfl⟩ | ⟨hpc, k, rest, hhandles, hgone, rfl⟩ | ⟨hpc, hhandles, hs⟩
  · obtain ⟨c, hw, rfl⟩ := Option.map_eq_some_iff.mp hs
    have hrx : ∀ k, s.watch.rx k = none → c.rx k = none := fun k hk => Watch.step_rx_none hw nofun hk
    have hquits := Watch.step_quits hw nofun
    refine ⟨fun k hk => h.handles k fun hnone => hk (hrx k hnone), h.length, h.queue, h.room,
      fun hne => hquits.trans (h.sending hne), fun hj => absurd hj hpc,
      fun hd => ⟨hquits.trans (h.dropping hd).1, (h.dropping hd).2⟩, fun hm command hc => ?_, fun htold => ?_⟩
    · rcases Watch.step_replace hw hc with hsend | hc
      · cases hsend
      · exact h.close hm command hc
    · have hold : (∀ command, s.watch.sender ≠ .replace command) → c.shared.value = s.watch.shared.value →
          c.shared.value = some .close ∨ ∀ k, c.rx k = none := fun hne hvalue => by
        rw [hvalue]
        exact (h.told ⟨htold.1, hne⟩).imp_right fun hnone k => hrx k (hnone k)
      rcases Watch.senderStep_cases hw with ⟨val, hval, rfl⟩ | ⟨_, hpc', _, rfl⟩ | ⟨_, hpc', rfl⟩ | ⟨_, hpc', rfl⟩
      · exact Or.inl (h.close htold.1 val hval)
      · exact hold (fun command => by rw [hpc']; nofun) rfl
      · exact hold (fun command => by rw [hpc']; nofun) rfl
      · exact hold (fun command => by rw [hpc']; nofun) rfl
  · refine ⟨h.handles, h.length, h.queue, h.room, fun _ => ?_, fun _ => hidle, nofun, fun _ command hc => ?_, fun htold => ?_⟩
    · exact h.sending (by rw [hpc]; nofun)
    · cases hidle.symm.trans hc
    · exact h.told ⟨by rw [hpc]; nofun, htold.2⟩
  · refine ⟨fun j hj => ?_, ?_, h.queue, h.room, h.sending, h.joining, fun hd => ?_, h.close, h.told⟩
    · have hmem := h.handles j hj
      rw [hhandles, List.mem_cons] at hmem
      rcases hmem with (rfl | hmem) | hmem
      · exact Or.inr (hgone.resolve_left hj)
      · exact Or.inl hmem
      · exact Or.inr hmem
    · have hle := h.length
      rw [hhandles] at hle
      exact Nat.le_of_succ_le hle
    · cases hpc.symm.trans hd
  · obtain ⟨c, hw, rfl⟩ := Option.map_eq_some_iff.mp hs
    obtain ⟨hidle, rfl⟩ := Watch.step_drop hw
    refine ⟨h.handles, h.length, h.queue, h.room, fun hne => absurd rfl hne, nofun, fun _ => ⟨rfl, hhandles⟩, nofun,
      fun htold => ?_⟩
    exact h.told ⟨by rw [hpc]; nofun, fun command hc => nomatch hidle.symm.trans hc⟩

theorem Managed.kept (h : s.Managed n) (hseats : s.Seats n) (hs : s.step E a = some t) : t.Managed n := by
  obtain ⟨-, -, hs⟩ := act_of_step hs
  cases a with
  | process block =>
    obtain ⟨hpc, hidle, manager, rfl | ⟨command, hs, -⟩⟩ := process_cases hs
    · exact h.beside rfl rfl (fun _ hk => hk) rfl rfl h.queue h.room fun _ hk => hk
    · rw [hpc] at hs
      exact h.send hidle hseats.regular.counted (Or.inl rfl) { s.site with manager := manager } rfl nofun hs
  | drop =>
    obtain ⟨-, hidle, hs⟩ := drop_cases hs
    exact h.send hidle hseats.regular.counted (Or.inr rfl) { s.site with managerAlive := false } rfl (fun _ => rfl) hs
  | manager => exact h.managerStep hs
  | call k =>
    rcases call_cases hs with ⟨-, hs⟩ | ⟨-, hs⟩
    · exact h.watchStep hs (Or.inr (Or.inl ⟨k, rfl⟩))
    · exact h.watchStep hs (Or.inl ⟨k, rfl⟩)
  | channel k =>
    obtain ⟨r, r', u, hstepped⟩ := hseats.stepped hs
    refine h.beside hstepped.sender ?_ (fun j => Watch.step_rx_none hstepped.watch nofun) hstepped.pc hstepped.handles ?_ ?_ ?_
    · rw [(Receiver.step_published hstepped.step).1]
    · rw [hstepped.queue]
      exact h.queue
    · rw [hstepped.outlet]
      exact h.room
    · rw [hstepped.killed]
      exact fun _ hk => hk
  | work k a =>
    obtain ⟨r, y, u, -, -, -, -, rfl, hworked, -⟩ := work_cases hs
    refine h.beside rfl rfl (fun _ hk => hk) rfl rfl ?_ h.room fun _ hk => hk
    rcases hworked.queue with heq | ⟨-, hone⟩
    · rw [heq]
      exact h.queue
    · exact Nat.le_of_eq hone
  | exit k => exact h.watchStep (Option.ite_none_right_eq_some.mp hs).2 (Or.inr (Or.inr (Or.inl ⟨k, rfl⟩)))
  | spurious k => exact h.watchStep hs (Or.inr (Or.inr (Or.inr ⟨k, rfl⟩)))
  | forward | relay | drain | post | closeQueue | freeze =>
    have hquiet := quiet_of_act rfl hs
    have hwatch := hquiet.watch
    refine h.beside ?_ ?_ ?_ hquiet.pc hquiet.handles (Nat.le_trans hquiet.queue h.queue) (hquiet.room h.room) hquiet.killed
    · rw [hwatch]
    · rw [hwatch]
    · rw [hwatch]
      exact fun _ hk => hk

theorem start_managed (n capacity : Nat) (kinds : Nat → UInt64 ⊕ Bool) : (start n capacity kinds).Managed n := by
  refine ⟨fun k hk => Or.inl ?_, ?_, Nat.zero_le 1, Nat.zero_le _, fun _ => rfl, nofun, nofun, nofun,
    fun htold => absurd rfl htold.1⟩
  · obtain ⟨hpos, hle⟩ := (start_seats n capacity kinds).within k hk
    simp only [start, List.mem_reverse, List.mem_range'_1]
    omega
  · simp only [start, List.length_reverse, List.length_range']
    exact Nat.le_refl n

/-! ### After `Close` -/

/-- The freeze handler has not gone off. -/
structure Standing (capacity : Nat) (s : Crew) : Prop where
  aborted : s.aborted = false
  killed : s.killed = []
  capacity : s.outlet.capacity = capacity

/-- The drop has begun, nobody is killed, and the ids have not come round. -/
structure Closing (n capacity : Nat) (s : Crew) : Prop where
  seats : s.Seats n
  walking : s.Walking
  managed : s.Managed n
  standing : s.Standing capacity
  told : s.Told
  few : s.watch.shared.version < 2 ^ 64

theorem Closing.close {r : Receiver (Command RpcBlock)} (h : s.Closing n capacity) (hr : s.watch.rx k = some r) :
    s.watch.shared.value = some .close := by
  refine (h.managed.told h.told).resolve_right fun hnone => ?_
  cases (hnone k).symm.trans hr

/-- A thread that has not stopped has not observed `Close`. -/
theorem Closing.unobserved {r : Receiver (Command RpcBlock)} (h : s.Closing n capacity) (hr : s.watch.rx k = some r)
    (hpc : r.pc.cloning = false) (hrunning : (s.site.threads k).stopped = false) :
    r.lastObserved ≠ s.watch.shared.id := by
  intro heq
  have htraced := h.seats.regular.traced
  obtain ⟨o, ho, -, hvalue⟩ := (htraced.rx k r hr).unchanged htraced.numbered hpc heq (Nat.le_of_lt h.few) (Or.inr h.few)
  rw [(h.seats.seated k r hr).closed o ho (hvalue.trans (h.close hr))] at hrunning
  cases hrunning

theorem Standing.kept (h : s.Standing capacity) (ha : a.freezes = false) (hs : s.step E a = some t) :
    t.Standing capacity := by
  obtain ⟨haborted, hkilled, hcapacity⟩ := h
  have hwatch : ∀ {b} {s' : Crew}, s'.watchStep b = some t → s'.aborted = s.aborted → s'.killed = s.killed →
      s'.outlet = s.outlet → t.Standing capacity := fun {b s'} hs ha hk ho => by
    obtain ⟨c, -, rfl⟩ := Option.map_eq_some_iff.mp hs
    refine ⟨ha.trans haborted, hk.trans hkilled, ?_⟩
    rw [← hcapacity, ← ho]
    rfl
  obtain ⟨-, -, hs⟩ := act_of_step hs
  cases a with
  | process block =>
    obtain ⟨-, -, manager, rfl | ⟨command, hs, -⟩⟩ := process_cases hs
    · exact ⟨haborted, hkilled, hcapacity⟩
    · exact hwatch hs rfl rfl rfl
  | drop => exact hwatch (drop_cases hs).2.2 rfl rfl rfl
  | manager =>
    rcases manager_cases hs with ⟨-, hs⟩ | ⟨-, -, rfl⟩ | ⟨-, k, rest, -, -, rfl⟩ | ⟨-, -, hs⟩
    · exact hwatch hs rfl rfl rfl
    · exact ⟨haborted, hkilled, hcapacity⟩
    · exact ⟨haborted, hkilled, hcapacity⟩
    · exact hwatch hs rfl rfl rfl
  | call k => rcases call_cases hs with ⟨-, hs⟩ | ⟨-, hs⟩ <;> exact hwatch hs rfl rfl rfl
  | channel k =>
    obtain ⟨r, -, hs⟩ := Option.bind_eq_some_iff.mp hs
    split at hs
    · obtain ⟨site, -, hs⟩ := Option.bind_eq_some_iff.mp hs
      exact hwatch hs rfl rfl rfl
    · exact hwatch hs rfl rfl rfl
  | work k a =>
    obtain ⟨r, y, u, -, -, -, -, rfl, -⟩ := work_cases hs
    exact ⟨haborted, hkilled, hcapacity⟩
  | exit k => exact hwatch (Option.ite_none_right_eq_some.mp hs).2 rfl rfl rfl
  | spurious k => exact hwatch hs rfl rfl rfl
  | forward =>
    obtain ⟨-, b, rest, -, rfl⟩ := forward_cases hs
    exact ⟨haborted, hkilled, hcapacity⟩
  | relay | drain =>
    obtain ⟨outlet, houtlet, rfl⟩ := Option.map_eq_some_iff.mp hs
    obtain ⟨-, houtlet⟩ := Option.ite_none_right_eq_some.mp houtlet
    cases houtlet
    exact ⟨haborted, hkilled, hcapacity⟩
  | post =>
    obtain ⟨-, -, rfl⟩ := post_cases hs
    exact ⟨haborted, hkilled, hcapacity⟩
  | closeQueue =>
    obtain ⟨-, hs⟩ := Option.ite_none_right_eq_some.mp hs
    cases hs
    exact ⟨haborted, hkilled, hcapacity⟩
  | freeze => cases ha

/-- Nobody gives the manager blocks any more, and it publishes nothing. -/
theorem Closing.kept (h : s.Closing n capacity) (ha : a.freezes = false) (hs : s.step E a = some t) :
    t.Closing n capacity := by
  obtain ⟨-, -, hact⟩ := act_of_step hs
  have hwalks : a.Walks := by
    cases a with
    | process block => exact absurd (process_cases hact).1 h.told.1
    | _ => trivial
  have hbeside : t.watch = s.watch → t.pc ≠ .mining → t.Told ∧ t.watch.shared.version = s.watch.shared.version :=
    fun hwatch hpc => by
      rw [Told, hwatch]
      exact ⟨⟨hpc, h.told.2⟩, rfl⟩
  have hmoved : ∀ {b}, Watch.step s.watch b = some t.watch → (∀ command, b ≠ .send command) → t.pc ≠ .mining →
      t.Told ∧ t.watch.shared.version = s.watch.shared.version := fun {b} hw hb hpc => by
    refine ⟨⟨hpc, fun command hreplace => ?_⟩, ?_⟩
    · exact (Watch.step_replace hw hreplace).elim (hb command) (h.told.2 command)
    · rcases Watch.step_published hw with hpub | ⟨-, -, command, hreplace, -⟩
      · rw [hpub]
      · exact absurd hreplace (h.told.2 command)
  have hstep : ∀ {b}, s.watchStep b = some t → (∀ command, b ≠ .send command) →
      t.Told ∧ t.watch.shared.version = s.watch.shared.version := fun {b} hs hb => by
    obtain ⟨c, hw, rfl⟩ := Option.map_eq_some_iff.mp hs
    exact hmoved hw hb h.told.1
  suffices htold : t.Told ∧ t.watch.shared.version = s.watch.shared.version from
    ⟨h.seats.kept hs, h.walking.kept h.seats hwalks hs, h.managed.kept h.seats hs, h.standing.kept ha hs, htold.1,
      by rw [htold.2]; exact h.few⟩
  clear hs
  rename' hact => hs
  cases a with
  | process block => exact absurd (process_cases hs).1 h.told.1
  | drop => exact absurd (drop_cases hs).1 h.told.1
  | manager =>
    rcases manager_cases hs with ⟨-, hs⟩ | ⟨-, -, rfl⟩ | ⟨-, k, rest, -, -, rfl⟩ | ⟨-, -, hs⟩
    · exact hstep hs nofun
    · exact hbeside rfl nofun
    · exact hbeside rfl h.told.1
    · obtain ⟨c, hw, rfl⟩ := Option.map_eq_some_iff.mp hs
      exact hmoved hw nofun nofun
  | call k => rcases call_cases hs with ⟨-, hs⟩ | ⟨-, hs⟩ <;> exact hstep hs nofun
  | channel k =>
    obtain ⟨r, r', u, hstepped⟩ := h.seats.stepped hs
    exact hmoved hstepped.watch nofun (hstepped.pc ▸ h.told.1)
  | work k a =>
    obtain ⟨r, y, u, -, -, -, -, rfl, -⟩ := work_cases hs
    exact hbeside rfl h.told.1
  | exit k => exact hstep (Option.ite_none_right_eq_some.mp hs).2 nofun
  | spurious k => exact hstep hs nofun
  | forward | relay | drain | post | closeQueue | freeze =>
    have hquiet := quiet_of_act rfl hs
    exact hbeside hquiet.watch (hquiet.pc ▸ h.told.1)

/-! ### Every step brings the end nearer -/

/-- What thread `k` and its receiver have left to do, the end of the thread included. -/
def threadRest (s : Crew) (k : Nat) : Nat :=
  match s.watch.rx k with
  | none => 0
  | some r => r.pc.rest + (if r.pc = .idle ∨ r.pc = .release then (s.site.threads k).left else 0) + 1

def managerRest (s : Crew) : Nat :=
  match s.pc with
  | .mining | .closing => s.watch.sender.rest + s.handles.length + 5
  | .joining => s.handles.length + 4
  | .dropping => s.watch.sender.rest

/-- A block that is found has three steps to go to the connection. -/
def queueRest (s : Crew) : Nat :=
  3 * s.site.queue.length + (if s.outlet.held then 2 else 0) + s.outlet.outgoing + if s.site.queueOpen then 1 else 0

/-- What is left to do at most, but for launches without a look at the channel. -/
def rest (n : Nat) (s : Crew) : Nat := s.managerRest + s.queueRest + ∑ k ∈ range (n + 1), s.threadRest k

theorem left_le (th : Thread) : th.left ≤ 516 := by
  unfold Thread.left
  split
  · split <;> omega
  · split
    · omega
    · omega
    · omega
    · omega
    · split <;> omega

theorem threadRest_bound (s : Crew) (k : Nat) : s.threadRest k ≤ 518 := by
  unfold threadRest
  split
  · exact Nat.zero_le _
  · next r _ =>
    split
    · next hor =>
      have hrest : r.pc.rest ≤ 1 := by rcases hor with hor | hor <;> (rw [hor]; decide)
      have := left_le (s.site.threads k)
      omega
    · have := r.pc.rest_le
      omega

theorem Closing.rest_le (h : s.Closing n capacity) : s.rest n ≤ 519 * n + capacity + 14 := by
  have hzero : s.threadRest 0 = 0 := by
    unfold threadRest
    cases hr : s.watch.rx 0 with
    | none => rfl
    | some r => exact absurd (h.seats.within 0 (by rw [hr]; nofun)).1 (Nat.not_succ_le_zero 0)
  have hthreads : ∑ k ∈ range (n + 1), s.threadRest k ≤ n * 518 := by
    rw [Finset.sum_range_succ', hzero, Nat.add_zero]
    have hsum := Finset.sum_le_card_nsmul (range n) (fun k => s.threadRest (k + 1)) 518 fun k _ => threadRest_bound s _
    rwa [Finset.card_range, smul_eq_mul] at hsum
  have hmanager : s.managerRest ≤ n + 8 := by
    have hlength := h.managed.length
    have hsender : s.watch.sender.rest ≤ 3 := by
      cases hsender : s.watch.sender with
      | replace command => exact absurd hsender (h.told.2 command)
      | _ => simp only [Watch.SenderPc.rest]; omega
    unfold managerRest
    split <;> omega
  have hqueue : s.queueRest ≤ capacity + 6 := by
    have hlength := h.managed.queue
    have hroom := h.managed.room
    rw [h.standing.capacity] at hroom
    unfold queueRest
    split <;> split <;> omega
  unfold rest
  omega

/-! ### Until the end there is a step to take -/

/-- Somebody has a step to take, the freeze handler aside. -/
def Live (E : Setting) (s : Crew) : Prop := ∃ a t, a.freezes = false ∧ s.step E a = some t

theorem Standing.step_of_act (h : s.Standing capacity) (hact : s.act E a = some t) : s.step E a = some t := by
  have hstands : (s.aborted || a.thread?.any s.killed.contains) = false := by
    rw [h.aborted, h.killed]
    cases a.thread? <;> rfl
  rw [step, hstands]
  exact hact

theorem Standing.live (h : s.Standing capacity) (ha : a.freezes = false) (hact : ∃ t, s.act E a = some t) :
    Live E s := by
  obtain ⟨t, ht⟩ := hact
  exact ⟨a, t, ha, h.step_of_act ht⟩

theorem Closing.channel_enabled {r r' : Receiver (Command RpcBlock)} {sh : Watch.Shared (Command RpcBlock)}
    (h : s.Closing n capacity) (hr : s.watch.rx k = some r) (hstep : r.step k s.watch.shared = some (sh, r')) :
    Live E s := by
  have hw : ∀ s' : Crew, s'.watch = s.watch → ∃ t, s'.watchStep (.receiver k) = some t := fun s' hwatch => by
    refine ⟨_, Option.map_eq_some_iff.mpr ⟨{ s.watch.setRx k (some r') with shared := sh }, ?_, rfl⟩⟩
    simp only [Watch.step, hwatch, hr, hstep, Option.bind_some, Option.map_some]
  have hchannel : ∃ t, s.channel k = some t := by
    simp only [channel, hr, Option.bind_eq_bind, Option.bind_some]
    cases htells : r.tells s.watch.shared with
    | none => exact hw s rfl
    | some told =>
      obtain ⟨y, u, hy, -, -⟩ := tell_at (h.seats.seated k r hr).at_pc hstep htells
        (congrArg Watch.Published.id h.seats.channel) h.seats.senderAlive
      simp only [hy, Option.bind_some]
      exact hw _ rfl
  exact h.standing.live (a := .channel k) rfl hchannel

/-- Whoever holds the mutex moves, if it is a receiver. -/
theorem Closing.holder_enabled (h : s.Closing n capacity) (hholds : s.watch.shared.waitForChange = some (.receiver k)) :
    Live E s := by
  obtain ⟨r, hr, hpc⟩ := (h.seats.regular.guarded (.receiver k)).mpr hholds
  obtain ⟨sh, r', hstep, -⟩ := Receiver.step_holder (k := k) (s := s.watch.shared) hpc
  exact h.channel_enabled hr hstep

/-- The sender goes on with its `send` or its drop, or a receiver has the mutex. -/
theorem Closing.sender_enabled (h : s.Closing n capacity) (hpc : s.pc = .closing ∨ s.pc = .dropping)
    (hidle : s.watch.sender ≠ .idle) (hdropped : s.watch.sender ≠ .dropped) : Live E s := by
  have hmanager : ∀ {c}, Watch.step s.watch .sender = some c → Live E s := fun {c} hw => by
    have hstep : s.watchStep .sender = some (s.setWatch c) := Option.map_eq_some_iff.mpr ⟨c, hw, rfl⟩
    refine h.standing.live (a := .manager) rfl ⟨s.setWatch c, ?_⟩
    rcases hpc with hpc | hpc
    · simp only [act, manager, hpc, hstep]
    · simp only [act, manager, hpc, hstep]
  cases hsender : s.watch.sender with
  | idle => exact absurd hsender hidle
  | dropped => exact absurd hsender hdropped
  | replace command => exact absurd hsender (h.told.2 command)
  | notify dropping => exact hmanager (by simp only [Watch.step, Watch.Channel.senderStep, hsender]; rfl)
  | release dropping => exact hmanager (by simp only [Watch.step, Watch.Channel.senderStep, hsender]; rfl)
  | acquire dropping =>
    cases hmutex : s.watch.shared.waitForChange with
    | none => exact hmanager (by simp only [Watch.step, Watch.Channel.senderStep, hsender, hmutex, if_true]; rfl)
    | some o =>
      cases o with
      | sender =>
        have hholds := (h.seats.regular.guarded .sender).mpr hmutex
        rw [Watch.Channel.Holds, hsender] at hholds
        cases hholds
      | receiver k => exact h.holder_enabled hmutex

/-- A block in the queue is taken, unless the message of the last one waits for room; and then the connection takes
    one. -/
theorem Closing.queue_enabled (h : s.Closing n capacity) (hroom : 0 < capacity) {b : BlockSeed RpcBlock}
    {rest : List (BlockSeed RpcBlock)} (hqueue : s.site.queue = b :: rest) : Live E s := by
  cases hheld : s.outlet.held with
  | false =>
    refine h.standing.live (a := .forward) rfl ?_
    simp only [act, forward, hheld, Site.forward, hqueue, Bool.false_eq_true, if_false, Option.map_some]
    exact ⟨_, rfl⟩
  | true =>
    by_cases hless : s.outlet.outgoing < s.outlet.capacity
    · refine h.standing.live (a := .relay) rfl ?_
      simp only [act, Outlet.relay, if_pos (And.intro hheld hless), Option.map_some]
      exact ⟨_, rfl⟩
    · have hsome : 0 < s.outlet.outgoing := by
        rw [h.standing.capacity] at hless
        omega
      refine h.standing.live (a := .drain) rfl ?_
      simp only [act, Outlet.drain, if_pos hsome, Option.map_some]
      exact ⟨_, rfl⟩

theorem handOver_enabled {x : Site} {b : BlockSeed RpcBlock} {next dead : Thread} (hqueue : x.queue = []) :
    ∃ y, x.handOver E k b next dead = some y := by
  unfold Site.handOver
  rw [if_pos hqueue]
  split
  · dsimp only
    split <;> exact ⟨_, rfl⟩
  · exact ⟨_, rfl⟩

theorem cpuHash_enabled {x : Site} {w : CpuWorker RpcBlock} {job : State RpcBlock} (hpc : w.pc = .head)
    (hstate : w.state = some job) (hqueue : x.queue = []) : ∃ y, x.cpuHash E k w = some y := by
  simp only [Site.cpuHash, hpc, hstate]
  split
  · exact ⟨_, rfl⟩
  · exact ⟨_, rfl⟩
  · exact handOver_enabled hqueue

/-- A thread between two calls starts the next one, ends, or works, unless its last block is still in the queue. -/
theorem Closing.idle_enabled {r : Receiver (Command RpcBlock)} (h : s.Closing n capacity) (hroom : 0 < capacity)
    (hr : s.watch.rx k = some r) (hpc : r.pc = .idle) : Live E s := by
  have hidle : s.watch.idleRx k = some r := Watch.Channel.idleRx_eq_some.mpr ⟨hr, hpc⟩
  have hbetween := (h.seats.seated k r hr).at_pc
  rw [hpc] at hbetween
  have hcall : ∀ {c}, (s.site.threads k).call = some c → Live E s := fun {c} hcall => by
    have hstarts : ∃ t, s.act E (.call k) = some t := by
      simp only [act, call, hcall]
      cases c <;> exact ⟨_, by simp only [watchStep, Watch.step, hidle, Option.map_some]; rfl⟩
    exact h.standing.live rfl hstarts
  have hexit : (s.site.threads k).stopped = true → Live E s := fun hstopped => by
    have hends : ∃ t, s.act E (.exit k) = some t := by
      simp only [act, hstopped, if_true]
      exact ⟨_, by simp only [watchStep, Watch.step, hidle, Option.map_some]; rfl⟩
    exact h.standing.live rfl hends
  cases hthread : s.site.threads k with
  | cpu w =>
    rw [hthread] at hcall hexit
    cases hwpc : w.pc with
    | stopped => exact hexit (by rw [Thread.stopped, hwpc]; rfl)
    | poll => exact hcall (c := .getChanged) (by simp only [Thread.call, hwpc])
    | head =>
      cases hstate : w.state with
      | none => exact hcall (c := .waitForChange) (by simp only [Thread.call, hwpc, hstate])
      | some job =>
        cases hqueue : s.site.queue with
        | nil =>
          obtain ⟨y, hy⟩ := cpuHash_enabled (E := E) (k := k) hwpc hstate hqueue
          refine h.standing.live (a := .work k .hash) rfl ⟨{ s with site := y }, ?_⟩
          simp only [act, work, hidle, Site.stepThread, hthread, hy, Option.map_some]
        | cons b rest => exact h.queue_enabled hroom hqueue
  | gpu g =>
    rw [hthread] at hcall hexit hbetween
    cases hgpc : g.pc with
    | stopped => exact hexit (by rw [Thread.stopped, hgpc]; rfl)
    | clone => exact absurd hgpc hbetween
    | poll => exact hcall (c := .getChanged) (by simp only [Thread.call, hgpc])
    | head =>
      cases hstate : g.state with
      | none => exact hcall (c := .waitForChange) (by simp only [Thread.call, hgpc, hstate])
      | some job =>
        refine h.standing.live (a := .work k (.launch .panicked false)) rfl ?_
        simp only [act, work, hidle, Site.stepThread, hthread, Site.gpuLaunch, hgpc, hstate, Option.map_some]
        exact ⟨_, rfl⟩

/-- A thread that is still there can move, or somebody it waits for can. -/
theorem Closing.thread_enabled {r : Receiver (Command RpcBlock)} (h : s.Closing n capacity) (hroom : 0 < capacity)
    (hr : s.watch.rx k = some r) : Live E s := by
  have hchannel : ∀ {sh r'}, r.step k s.watch.shared = some (sh, r') → Live E s :=
    fun {sh r'} hstep => h.channel_enabled hr hstep
  have hsender : s.watch.sender ≠ .idle → s.watch.sender ≠ .dropped → Live E s := fun hidle hdropped => by
    refine h.sender_enabled ?_ hidle hdropped
    cases hpc : s.pc with
    | mining => exact absurd hpc h.told.1
    | closing => exact Or.inl rfl
    | joining => exact absurd (h.managed.joining hpc) hidle
    | dropping => exact Or.inr rfl
  -- Waiting for the mutex, a receiver waits for whoever holds it.
  have hmutex : (r.pc = .acquire ∨ r.pc = .reacquire) → Live E s := fun hpc => by
    cases hholder : s.watch.shared.waitForChange with
    | none =>
      rcases hpc with hpc | hpc <;>
        exact hchannel (by simp only [Receiver.step, hpc, hholder, if_true]; rfl)
    | some o =>
      cases o with
      | sender =>
        have hholds := (h.seats.regular.guarded .sender).mpr hholder
        rw [Watch.Channel.Holds] at hholds
        refine hsender (fun hidle => ?_) fun hdropped => ?_
        · rw [hidle] at hholds
          cases hholds
        · rw [hdropped] at hholds
          cases hholds
      | receiver j => exact h.holder_enabled hholder
  cases hpc : r.pc with
  | idle => exact h.idle_enabled hroom hr hpc
  | alive site => exact hchannel (by simp only [Receiver.step, hpc]; rfl)
  | load site =>
    have hcall := (h.seats.seated k r hr).at_pc
    rw [hpc] at hcall
    have hnew := h.unobserved hr (by rw [hpc]; rfl) (Thread.not_stopped_of_call hcall)
    exact hchannel (by simp only [Receiver.step, hpc, if_neg fun h : _ ∧ _ => hnew h.2]; rfl)
  | clone site => exact hchannel (by simp only [Receiver.step, hpc]; rfl)
  | enqueue => exact hchannel (by simp only [Receiver.step, hpc]; rfl)
  | release => exact hchannel (by simp only [Receiver.step, hpc]; rfl)
  | acquire => exact hmutex (Or.inl hpc)
  | reacquire => exact hmutex (Or.inr hpc)
  | waiting =>
    -- Asleep, a receiver is owed a wake-up.
    have hcall := (h.seats.seated k r hr).at_pc
    rw [hpc] at hcall
    have hnew := h.unobserved hr (by rw [hpc]; rfl) (Thread.not_stopped_of_call hcall)
    have howes := (h.seats.regular.awake.asleep k r hr (Or.inr hpc)).resolve_left fun hsame => hnew hsame.1.symm
    refine hsender (fun hidle => ?_) fun hdropped => ?_
    · rw [hidle] at howes
      cases howes
    · rw [hdropped] at howes
      cases howes

/-- Until the drop has returned, somebody has a step to take. -/
theorem Closing.live (h : s.Closing n capacity) (hroom : 0 < capacity) (hdone : ¬s.done) : Live E s := by
  cases hpc : s.pc with
  | mining => exact absurd hpc h.told.1
  | closing =>
    cases hsender : s.watch.sender with
    | idle =>
      refine h.standing.live (a := .manager) rfl ⟨{ s with pc := .joining }, ?_⟩
      simp only [act, manager, hpc, hsender]
    | dropped =>
      have hsending := h.managed.sending (by rw [hpc]; nofun)
      rw [hsender] at hsending
      cases hsending
    | _ => exact h.sender_enabled (Or.inl hpc) (by rw [hsender]; nofun) (by rw [hsender]; nofun)
  | joining =>
    have hsender := h.managed.joining hpc
    cases hhandles : s.handles with
    | nil =>
      refine h.standing.live (a := .manager) rfl ?_
      simp only [act, manager, hpc, hhandles, watchStep, Watch.step, hsender, Option.map_some]
      exact ⟨_, rfl⟩
    | cons k rest =>
      cases hr : s.watch.rx k with
      | none =>
        refine h.standing.live (a := .manager) rfl ⟨{ s with handles := rest }, ?_⟩
        simp only [act, manager, hpc, hhandles, if_pos (gone_iff.mpr (Or.inl hr))]
      | some r => exact h.thread_enabled hroom hr
  | dropping =>
    obtain ⟨hquits, -⟩ := h.managed.dropping hpc
    cases hsender : s.watch.sender with
    | idle =>
      rw [hsender] at hquits
      cases hquits
    | replace command => exact absurd hsender (h.told.2 command)
    | dropped => exact absurd ⟨hpc, by rw [hsender]⟩ hdone
    | _ => exact h.sender_enabled (Or.inr hpc) (by rw [hsender]; nofun) (by rw [hsender]; nofun)

end

end Crew
end CryptixMiner.Miner
