import CryptixMiner.Watch.Channel

/-! No wake-up is lost. The second check of `wait_for_change` is made under the mutex that the sender
    takes before it notifies, so a receiver that checked, and is not waiting yet, keeps the sender from
    notifying too early. -/

namespace CryptixMiner.Watch
open StepSystem

/-- The part of `wait_for_change` that runs under the mutex. -/
def Site.guarded : Site → Bool
  | .getChanged | .unlocked => false
  | .locked | .woken => true

def RxPc.holds : RxPc → Bool
  | .alive site | .load site | .clone site => site.guarded
  | .enqueue | .release => true
  | .idle | .acquire | .waiting | .reacquire => false

def SenderPc.holds {α : Type} : SenderPc α → Bool
  | .notify _ | .release _ => true
  | _ => false

/-- In the middle of a send or a drop, its `notify_all` still to come. -/
def SenderPc.owes {α : Type} : SenderPc α → Bool
  | .acquire _ | .notify _ => true
  | _ => false

section Wakeup
variable {α : Type} {c c' : Channel α} {a : Action α} {s s' : Shared α} {r r' : Receiver α} {k : Nat}

/-- Who is in a part that runs under the mutex. -/
def Channel.Holds (c : Channel α) : Owner → Prop
  | .sender => c.sender.holds = true
  | .receiver k => ∃ r, c.rx k = some r ∧ r.pc.holds = true

/-- The mutex is held by the one that is in such a part. -/
def Channel.Guarded (c : Channel α) : Prop := ∀ o, c.Holds o ↔ c.shared.waitForChange = some o

/-- A receiver that found nothing new under the mutex has reason to sleep until the sender notifies. -/
structure Channel.Awake (c : Channel α) : Prop where
  checked : ∀ k r, c.rx k = some r → r.pc = .load .locked →
    c.shared.senderAlive = true ∨ c.sender.owes = true
  asleep : ∀ k r, c.rx k = some r → r.pc = .enqueue ∨ r.pc = .waiting →
    (c.shared.id = r.lastObserved ∧ c.shared.senderAlive = true) ∨ c.sender.owes = true

/-! ### The mutex -/

theorem Site.exit_holds (site : Site) : site.exit.holds = site.guarded := by cases site <;> rfl

theorem Site.unchanged_holds (site : Site) : site.unchanged.holds = site.guarded := by cases site <;> rfl

/-- A receiver that moves keeps the mutex, takes it when free, or gives it back. -/
theorem Receiver.step_mutex (h : r.step k s = some (s', r')) :
    (r'.pc.holds = r.pc.holds ∧ s'.waitForChange = s.waitForChange) ∨
    (s.waitForChange = none ∧ s'.waitForChange = some (.receiver k) ∧ r'.pc.holds = true) ∨
    (r.pc.holds = true ∧ s'.waitForChange = none ∧ r'.pc.holds = false) := by
  rcases step_cases h with ⟨site, hpc, rfl, rfl⟩ | ⟨site, hpc, -, -, rfl, rfl⟩ | ⟨site, hpc, -, rfl, rfl⟩ |
    ⟨site, hpc, rfl, rfl⟩ | ⟨site, hpc, hfree, rfl, rfl⟩ | ⟨hpc, rfl, rfl⟩ | ⟨hpc, rfl, rfl⟩
  · refine .inl ⟨?_, rfl⟩
    rw [hpc]
    simp only
    split
    · rfl
    · exact site.exit_holds
  · exact .inl ⟨by rw [hpc]; exact site.unchanged_holds, rfl⟩
  · exact .inl ⟨by rw [hpc]; rfl, rfl⟩
  · exact .inl ⟨by rw [hpc]; exact site.exit_holds, rfl⟩
  · exact .inr (.inl ⟨hfree, rfl, by rcases hpc with ⟨-, rfl⟩ | ⟨-, rfl⟩ <;> rfl⟩)
  · exact .inr (.inr ⟨by rw [hpc]; rfl, rfl, rfl⟩)
  · exact .inr (.inr ⟨by rw [hpc]; rfl, rfl, rfl⟩)

theorem step_holds_receiver (h : step c a = some c') (ha : a ≠ .receiver k) :
    c'.Holds (.receiver k) ↔ c.Holds (.receiver k) := by
  constructor
  · rintro ⟨r', hr', hholds⟩
    rcases step_rx h hr' with ⟨_, rfl, -⟩ | ⟨_, site, hsite, -, -, -, rfl⟩ | ⟨_, -, -, -, rfl⟩ | ⟨_, -, hidle, -⟩ |
      ⟨-, hr⟩
    · exact absurd rfl ha
    · rcases hsite with rfl | rfl <;> cases hholds
    · cases hholds
    · rw [hidle] at hholds
      cases hholds
    · exact ⟨r', hr, hholds⟩
  · rintro ⟨r, hr, hholds⟩
    refine ⟨r, step_rx_kept h hr (fun hpc => ?_) (fun hpc => ?_) ha, hholds⟩ <;>
      · rw [hpc] at hholds
        cases hholds

theorem step_mutex (h : step c a = some c') :
    ((∀ o, c'.Holds o ↔ c.Holds o) ∧ c'.shared.waitForChange = c.shared.waitForChange) ∨
    (∃ o, (∀ o', o' ≠ o → (c'.Holds o' ↔ c.Holds o')) ∧
      ((c.shared.waitForChange = none ∧ c'.shared.waitForChange = some o ∧ c'.Holds o) ∨
        (c.Holds o ∧ c'.shared.waitForChange = none ∧ ¬c'.Holds o))) := by
  have hrx : ∀ k, a ≠ .receiver k → (c'.Holds (.receiver k) ↔ c.Holds (.receiver k)) :=
    fun k => step_holds_receiver h
  rcases step_cases h with rfl | ⟨hidle, pc, hpc, rfl⟩ | ⟨hidle, rfl⟩ | ⟨hsame, -, -, hmutex⟩
  · have hothers : ∀ o, o ≠ .sender → (c'.Holds o ↔ c.Holds o) := fun o ho => by
      cases o with
      | sender => exact absurd rfl ho
      | receiver k => exact hrx k nofun
    rcases senderStep_cases h with ⟨_, hpc, rfl⟩ | ⟨_, hpc, hfree, rfl⟩ | ⟨_, hpc, rfl⟩ | ⟨dropping, hpc, rfl⟩
    · refine .inl ⟨fun o => ?_, rfl⟩
      cases o with
      | sender => simp [Channel.Holds, hpc, SenderPc.holds]
      | receiver k => exact Iff.rfl
    · exact .inr ⟨.sender, hothers, .inl ⟨hfree, rfl, rfl⟩⟩
    · refine .inl ⟨fun o => ?_, rfl⟩
      cases o with
      | sender => simp [Channel.Holds, hpc, SenderPc.holds]
      | receiver k => exact hothers _ nofun
    · refine .inr ⟨.sender, hothers, .inr ⟨by simp [Channel.Holds, hpc, SenderPc.holds], rfl, ?_⟩⟩
      cases dropping <;> exact Bool.false_ne_true
  · refine .inl ⟨fun o => ?_, rfl⟩
    cases o with
    | sender => rcases hpc with rfl | ⟨_, rfl⟩ <;> simp [Channel.Holds, hidle, SenderPc.holds]
    | receiver k => exact Iff.rfl
  · refine .inl ⟨fun o => ?_, rfl⟩
    cases o with
    | sender => simp [Channel.Holds, hidle, SenderPc.holds]
    | receiver k => exact Iff.rfl
  · have hsender : c'.Holds .sender ↔ c.Holds .sender := by rw [Channel.Holds, Channel.Holds, hsame]
    by_cases hmove : ∃ k, a = .receiver k
    · obtain ⟨k, rfl⟩ := hmove
      have hothers : ∀ o, o ≠ .receiver k → (c'.Holds o ↔ c.Holds o) := fun o ho => by
        cases o with
        | sender => exact hsender
        | receiver j => exact hrx j fun heq => ho (by cases heq; rfl)
      obtain ⟨r, r', hr, hstep, -, hrx'⟩ := step_receiver h
      have hr' : c'.rx k = some r' := by rw [hrx', Channel.setRx_rx, if_pos rfl]
      have hiff : c.Holds (.receiver k) ↔ r.pc.holds = true := by simp [Channel.Holds, hr]
      have hiff' : c'.Holds (.receiver k) ↔ r'.pc.holds = true := by simp [Channel.Holds, hr']
      rcases Receiver.step_mutex hstep with ⟨hholds, hkept⟩ | ⟨hfree, htaken, hholds⟩ | ⟨hholds, hgiven, hno⟩
      · refine .inl ⟨fun o => ?_, hkept⟩
        by_cases ho : o = .receiver k
        · rw [ho, hiff, hiff', hholds]
        · exact hothers o ho
      · exact .inr ⟨_, hothers, .inl ⟨hfree, htaken, hiff'.mpr hholds⟩⟩
      · exact .inr ⟨_, hothers, .inr ⟨hiff.mpr hholds, hgiven, by rw [hiff', hno]; exact Bool.false_ne_true⟩⟩
    · have hno : ∀ k, a ≠ .receiver k := fun k heq => hmove ⟨k, heq⟩
      refine .inl ⟨fun o => ?_, hmutex.resolve_right fun ⟨k, _, _, heq, _⟩ => hno k heq⟩
      cases o with
      | sender => exact hsender
      | receiver k => exact hrx k (hno k)

theorem Channel.Guarded.kept (hg : c.Guarded) (hs : step c a = some c') : c'.Guarded := by
  intro o
  rcases step_mutex hs with ⟨hsame, hmutex⟩ | ⟨o', hothers, ⟨hfree, htaken, hholds⟩ | ⟨hheld, hgiven, hnot⟩⟩
  · rw [hsame, hmutex]
    exact hg o
  · by_cases ho : o = o'
    · subst ho
      exact ⟨fun _ => htaken, fun _ => hholds⟩
    · rw [hothers o ho, hg o, hfree, htaken, Option.some.injEq]
      exact ⟨nofun, fun heq => absurd heq.symm ho⟩
  · by_cases ho : o = o'
    · subst ho
      rw [hgiven]
      exact ⟨fun hholds => absurd hholds hnot, nofun⟩
    · rw [hothers o ho, hg o, (hg o').mp hheld, hgiven, Option.some.injEq]
      exact ⟨fun heq => absurd heq.symm ho, nofun⟩

theorem channel_guarded (init : α) : (channel init).Guarded := by
  intro o
  refine ⟨fun hholds => ?_, nofun⟩
  cases o with
  | sender => cases hholds
  | receiver k =>
    obtain ⟨r, hr, hholds⟩ := hholds
    obtain ⟨-, rfl⟩ := (channel_rx_eq_some init).mp hr
    cases hholds

/-! ### Sleeping receivers -/

theorem notified_awake (k : Nat) (r : Receiver α) (hr : (c.rx k).map Receiver.wake = some r) :
    r.pc ≠ .waiting := by
  obtain ⟨x, _, rfl⟩ := Option.map_eq_some_iff.mp hr
  intro hw
  rcases x.wake_eq with ⟨_, heq⟩ | ⟨hpc', heq⟩
  · rw [heq] at hw
    cases hw
  · rw [heq] at hw
    exact hpc' hw

/-- What a step leaves a sleeping receiver with: the sender owes it a wake-up, or nothing changed, or
    the sender has just notified. -/
theorem step_owes (h : step c a = some c') :
    c'.sender.owes = true ∨
    (c.sender.owes = false ∧ c'.shared.id = c.shared.id ∧ c'.shared.senderAlive = c.shared.senderAlive) ∨
    (∃ dropping, c.sender = .notify dropping ∧ c'.sender = .release dropping ∧
      ∀ k r, c'.rx k = some r → r.pc ≠ .waiting) := by
  rcases step_cases h with rfl | ⟨hidle, _, _, rfl⟩ | ⟨_, rfl⟩ | ⟨hsame, hpub, halive, _⟩
  · rcases senderStep_cases h with ⟨_, _, rfl⟩ | ⟨_, _, _, rfl⟩ | ⟨dropping, hpc, rfl⟩ | ⟨_, hpc, rfl⟩
    · exact .inl rfl
    · exact .inl rfl
    · exact .inr (.inr ⟨dropping, hpc, rfl, notified_awake⟩)
    · exact .inr (.inl ⟨by rw [hpc]; rfl, rfl, rfl⟩)
  · exact .inr (.inl ⟨by rw [hidle]; rfl, rfl, rfl⟩)
  · exact .inl rfl
  · cases howes : c.sender.owes with
    | true => exact .inl (hsame ▸ howes)
    | false => exact .inr (.inl ⟨rfl, by rw [hpub], halive⟩)

theorem Channel.Guarded.not_release (hg : c.Guarded) {dropping : Bool} (hs : c.sender = .release dropping)
    (hr : c.rx k = some r) : r.pc.holds = false := by
  cases hholds : r.pc.holds with
  | false => rfl
  | true =>
    have hsender : c.shared.waitForChange = some .sender := (hg .sender).mp (by rw [Channel.Holds, hs]; rfl)
    rw [(hg (.receiver k)).mp ⟨r, hr, hholds⟩] at hsender
    cases hsender

theorem Receiver.step_to_load {site : Site} (hs : r.step k s = some (s', r')) (hpc : r'.pc = .load site) :
    s.senderAlive = true := by
  rcases step_cases hs with ⟨site', -, -, rfl⟩ | ⟨site', -, hsite, -, -, rfl⟩ | ⟨_, -, -, -, rfl⟩ |
    ⟨site', -, -, rfl⟩ | ⟨_, -, -, -, rfl⟩ | ⟨-, -, rfl⟩ | ⟨-, -, rfl⟩
  · simp only at hpc
    split at hpc
    · assumption
    · cases site' <;> cases hpc
  · cases site' <;> cases hpc
  · cases hpc
  · cases site' <;> cases hpc
  · cases hpc
  · cases hpc
  · cases hpc

/-- A receiver goes to sleep by the second check, and from there. -/
theorem Receiver.step_to_sleep (hs : r.step k s = some (s', r')) (hpc : r'.pc = .enqueue ∨ r'.pc = .waiting) :
    r'.lastObserved = r.lastObserved ∧
      ((r.pc = .load .locked ∧ r.lastObserved = s.id) ∨ r.pc = .enqueue) := by
  rcases step_cases hs with ⟨site', -, -, rfl⟩ | ⟨site', hload, hsite, heq, -, rfl⟩ | ⟨_, -, -, -, rfl⟩ |
    ⟨site', -, -, rfl⟩ | ⟨_, -, -, -, rfl⟩ | ⟨henq, -, rfl⟩ | ⟨-, -, rfl⟩
  · simp only at hpc
    split at hpc
    · rcases hpc with hpc | hpc <;> cases hpc
    · cases site' <;> rcases hpc with hpc | hpc <;> cases hpc
  · cases site' with
    | locked => exact ⟨rfl, .inl ⟨hload, heq⟩⟩
    | getChanged | unlocked | woken => rcases hpc with hpc | hpc <;> cases hpc
  · rcases hpc with hpc | hpc <;> cases hpc
  · cases site' <;> rcases hpc with hpc | hpc <;> cases hpc
  · rcases hpc with hpc | hpc <;> cases hpc
  · exact ⟨rfl, .inr henq⟩
  · rcases hpc with hpc | hpc <;> cases hpc

theorem Channel.Awake.kept (hw : c.Awake) (hg : c.Guarded) (hs : step c a = some c') : c'.Awake where
  checked k r' hr' hpc := by
    rcases step_owes hs with howes | ⟨howes, -, halive⟩ | ⟨_, -, hrelease, -⟩
    · exact .inr howes
    · refine .inl (halive ▸ ?_)
      rcases step_rx hs hr' with ⟨r, -, -, hstep⟩ | ⟨_, site, -, -, -, -, rfl⟩ | ⟨_, -, -, -, rfl⟩ |
        ⟨_, -, hidle, -⟩ | ⟨-, hr⟩
      · exact Receiver.step_to_load hstep hpc
      · cases hpc
      · cases hpc
      · rw [hidle] at hpc
        cases hpc
      · exact (hw.checked k r' hr hpc).resolve_right (by rw [howes]; exact Bool.false_ne_true)
    · have hno := (hg.kept hs).not_release hrelease hr'
      rw [hpc] at hno
      cases hno
  asleep k r' hr' hpc := by
    rcases step_owes hs with howes | ⟨howes, hid, halive⟩ | ⟨_, -, hrelease, hnone⟩
    · exact .inr howes
    · have hnot : ¬c.sender.owes = true := by rw [howes]; exact Bool.false_ne_true
      refine .inl ?_
      rw [hid, halive]
      rcases step_rx hs hr' with ⟨r, -, hr, hstep⟩ | ⟨_, site, -, -, -, -, rfl⟩ | ⟨_, -, -, -, rfl⟩ |
        ⟨_, -, hidle, -⟩ | ⟨-, hr⟩
      · obtain ⟨hobs, ⟨hload, heq⟩ | henq⟩ := Receiver.step_to_sleep hstep hpc
        · rw [hobs]
          exact ⟨heq.symm, (hw.checked k r hr hload).resolve_right hnot⟩
        · rw [hobs]
          exact (hw.asleep k r hr (.inl henq)).resolve_right hnot
      · rcases hpc with hpc | hpc <;> cases hpc
      · rcases hpc with hpc | hpc <;> cases hpc
      · rw [hidle] at hpc
        rcases hpc with hpc | hpc <;> cases hpc
      · exact (hw.asleep k r' hr hpc).resolve_right hnot
    · rcases hpc with hpc | hpc
      · have hno := (hg.kept hs).not_release hrelease hr'
        rw [hpc] at hno
        cases hno
      · exact absurd hpc (hnone k r' hr')

theorem channel_awake (init : α) : (channel init).Awake where
  checked k r hr hpc := by
    obtain ⟨-, rfl⟩ := (channel_rx_eq_some init).mp hr
    cases hpc
  asleep k r hr hpc := by
    obtain ⟨-, rfl⟩ := (channel_rx_eq_some init).mp hr
    rcases hpc with hpc | hpc <;> cases hpc

theorem Channel.Awake.of_reachable {init : α} (h : Reachable step (channel init) c) : c.Guarded ∧ c.Awake :=
  h.inv (I := fun c => c.Guarded ∧ c.Awake) ⟨channel_guarded init, channel_awake init⟩
    fun _ _ _ hc _ hs => ⟨hc.1.kept hs, hc.2.kept hc.1 hs⟩

/-! ### The notification can come -/

/-- The steps a receiver has left under the mutex, at most. -/
def RxPc.left : RxPc → Nat
  | .alive _ => 4
  | .load _ => 3
  | .clone _ => 2
  | .enqueue | .release => 1
  | .idle | .acquire | .waiting | .reacquire => 0

/-- A receiver under the mutex can move, and comes closer to giving it back. -/
theorem Receiver.step_holder (hholds : r.pc.holds = true) : ∃ s' r', r.step k s = some (s', r') ∧
    r'.pc.left < r.pc.left ∧ (s'.waitForChange = none ∨ r'.pc.holds = true) := by
  unfold Receiver.step
  cases hpc : r.pc with
  | idle | acquire | waiting | reacquire =>
    rw [hpc] at hholds
    cases hholds
  | alive site =>
    rw [hpc] at hholds
    refine ⟨_, _, rfl, ?_⟩
    dsimp only
    split
    · exact ⟨Nat.lt_succ_self 3, .inr hholds⟩
    · refine ⟨?_, .inr (site.exit_holds.trans hholds)⟩
      cases site <;> exact Nat.le_of_ble_eq_true rfl
  | load site =>
    rw [hpc] at hholds
    dsimp only
    split
    · next hcond =>
      refine ⟨_, _, rfl, ?_, .inr (site.unchanged_holds.trans hholds)⟩
      cases site <;> exact Nat.le_of_ble_eq_true rfl
    · exact ⟨_, _, rfl, Nat.lt_succ_self 2, .inr hholds⟩
  | clone site =>
    rw [hpc] at hholds
    refine ⟨_, _, rfl, ?_, .inr (site.exit_holds.trans hholds)⟩
    cases site <;> exact Nat.le_of_ble_eq_true rfl
  | enqueue => exact ⟨_, _, rfl, Nat.lt_succ_self 0, .inl rfl⟩
  | release => exact ⟨_, _, rfl, Nat.lt_succ_self 0, .inl rfl⟩

/-- A receiver under the mutex gives it back by steps of its own, and the sender stays where it is. -/
theorem Channel.gives_back {c : Channel α} {r : Receiver α} (hr : c.rx k = some r) (hholds : r.pc.holds = true) :
    ∃ as c', run step c as = some c' ∧ c'.shared.waitForChange = none ∧ c'.sender = c.sender := by
  obtain ⟨as, c', hrun, ⟨hsender, -⟩, hfree⟩ := exists_run step (s := c)
    (fun d => d.sender = c.sender ∧ ∃ r, d.rx k = some r ∧ (d.shared.waitForChange = none ∨ r.pc.holds = true))
    (fun d => d.shared.waitForChange = none) (fun d => ((d.rx k).map fun r => r.pc.left).getD 0)
    (fun d ⟨hsender, r, hr, hor⟩ hnot => by
      obtain ⟨s', r', hstep, hlt, hor'⟩ :=
        Receiver.step_holder (k := k) (s := d.shared) (hor.resolve_left hnot)
      refine ⟨.receiver k, { d.setRx k (some r') with shared := s' }, ?_, ⟨hsender, r', ?_, hor'⟩, ?_⟩
      · simp only [step, hr, hstep, Option.bind_some, Option.map_some]
      · rw [Channel.setRx_rx, if_pos rfl]
      · simpa [hr] using hlt)
    ⟨rfl, r, hr, .inr hholds⟩
  exact ⟨as, c', hrun, hfree, hsender⟩

/-- A sender waiting for the mutex gets it once the receiver that has it went on. -/
theorem Channel.Guarded.notify_comes (hg : c.Guarded) {dropping : Bool} (hs : c.sender = .acquire dropping) :
    ∃ as c', run step c as = some c' ∧ c'.sender = .notify dropping := by
  have htake : ∀ {c : Channel α}, c.sender = .acquire dropping → c.shared.waitForChange = none →
      ∃ c', step c .sender = some c' ∧ c'.sender = .notify dropping := fun hs hfree =>
    ⟨_, by simp only [step, Channel.senderStep, hs, hfree, if_pos]; rfl, rfl⟩
  cases hmutex : c.shared.waitForChange with
  | none =>
    obtain ⟨c', hstep, hnotify⟩ := htake hs hmutex
    exact ⟨[.sender], c', run_cons_iff.mpr ⟨c', hstep, rfl⟩, hnotify⟩
  | some o =>
    cases o with
    | sender =>
      have hholds := (hg .sender).mpr hmutex
      rw [Channel.Holds, hs] at hholds
      cases hholds
    | receiver k =>
      obtain ⟨r, hr, hholds⟩ := (hg (.receiver k)).mpr hmutex
      obtain ⟨as, c₁, hrun, hfree, hsender⟩ := Channel.gives_back hr hholds
      obtain ⟨c', hstep, hnotify⟩ := htake (hsender.trans hs) hfree
      exact ⟨as ++ [.sender], c', (run_append hrun).trans (run_cons_iff.mpr ⟨c', hstep, rfl⟩), hnotify⟩

/-- A receiver blocked in the wait has seen the current id of a sender that is alive, or the sender is
    in a send or a drop whose `notify_all` is still to come; it can come, and leaves no receiver blocked. -/
theorem waiting_owed {init : α} (h : Reachable step (channel init) c) :
    (∀ k r, c.rx k = some r → r.pc = .waiting →
      (c.shared.id = r.lastObserved ∧ c.shared.senderAlive = true) ∨
        ∃ dropping, c.sender = .acquire dropping ∨ c.sender = .notify dropping) ∧
    (∀ dropping, c.sender = .acquire dropping →
      ∃ as c', run step c as = some c' ∧ c'.sender = .notify dropping) ∧
    (∀ dropping, c.sender = .notify dropping →
      ∃ c', step c .sender = some c' ∧ ∀ k r, c'.rx k = some r → r.pc ≠ .waiting) := by
  obtain ⟨hg, hw⟩ := Channel.Awake.of_reachable h
  refine ⟨fun k r hr hpc => (hw.asleep k r hr (.inr hpc)).imp_right fun howes => ?_,
    fun dropping hs => hg.notify_comes hs, fun dropping hs => ?_⟩
  · cases hs : c.sender with
    | acquire dropping => exact ⟨dropping, .inl rfl⟩
    | notify dropping => exact ⟨dropping, .inr rfl⟩
    | idle | replace _ | release _ | dropped =>
      rw [hs] at howes
      cases howes
  · refine ⟨_, by simp only [step, Channel.senderStep, hs]; rfl, notified_awake⟩

/-- A receiver asleep on a value it obtained, while the sender has published another one and waits for
    the mutex. -/
theorem waiting_owed_send : ∃ c : Channel Nat, Reachable step (channel 7) c ∧
    (∃ r, c.rx 0 = some r ∧ r.pc = .waiting ∧ c.shared.id ≠ r.lastObserved) ∧
    ∃ dropping, c.sender = .acquire dropping ∨ c.sender = .notify dropping := by
  have hreach : Reachable step (channel 7) _ := .of_run [.getChanged 0, .receiver 0, .receiver 0,
    .receiver 0, .waitForChange 0, .receiver 0, .receiver 0, .receiver 0, .receiver 0, .receiver 0,
    .receiver 0, .send 8, .sender] rfl
  refine ⟨_, hreach, ⟨_, rfl, rfl, by decide⟩, ?_⟩
  exact ((waiting_owed hreach).1 0 _ rfl rfl).resolve_left fun h => absurd h.1 (by decide)

end Wakeup
end CryptixMiner.Watch
