import CryptixMiner.Lib.StepSystem
import Mathlib.Logic.Function.Basic

/-! The watch channel as a step system: one sender, any number of receivers, one atomic step of one
    of them at a time. `version` counts the values published so far and is not in the source, nor are
    a receiver's `loaded` (the version that was current when it last loaded the id) and its `history`
    (what it obtained, newest first); no step reads them. -/

namespace CryptixMiner.Watch

inductive Owner where
  | sender
  | receiver (k : Nat)
  deriving DecidableEq

/-- What receivers observe of the channel: the value and its id. -/
structure Published (α : Type) where
  value : α
  id : UInt64
  version : Nat

/-- `Shared`: what is published, the holder of the waiters' mutex, and who is still there. -/
structure Shared (α : Type) extends Published α where
  waitForChange : Option Owner
  receiversCount : Nat
  senderAlive : Bool

/-- Where `Shared::id` is loaded: in `get_changed`, in the two checks of `wait_for_change` before it
    takes the mutex and under it, and after it was woken. -/
inductive Site where
  | getChanged
  | unlocked
  | locked
  | woken
  deriving DecidableEq

/-- The next step of a receiver. -/
inductive RxPc where
  | idle
  | alive (site : Site)
  | load (site : Site)
  | clone (site : Site)
  | acquire
  | enqueue
  | waiting
  | reacquire
  | release
  deriving DecidableEq

structure Obtained (α : Type) where
  value : α
  version : Nat
  loaded : Nat

structure Receiver (α : Type) where
  lastObserved : UInt64
  pc : RxPc
  loaded : Nat
  history : List (Obtained α)

/-- The next step of the sender; after `wake_up_threads` it is idle again, or gone. -/
inductive SenderPc (α : Type) where
  | idle
  | replace (value : α)
  | acquire (dropping : Bool)
  | notify (dropping : Bool)
  | release (dropping : Bool)
  | dropped

structure Channel (α : Type) where
  shared : Shared α
  sender : SenderPc α
  rx : Nat → Option (Receiver α)

inductive Action (α : Type) where
  | send (value : α)
  | drop
  | sender
  | getChanged (k : Nat)
  | waitForChange (k : Nat)
  | receiver (k : Nat)
  | clone (k j : Nat)
  | dropReceiver (k : Nat)
  | spurious (k : Nat)

section Steps
variable {α : Type}

/-- `channel`: the first receiver has observed nothing. -/
def channel (init : α) : Channel α where
  shared := { value := init, id := 1, waitForChange := none, receiversCount := 1, senderAlive := true,
              version := 1 }
  sender := .idle
  rx k := if k = 0 then some { lastObserved := 0, pc := .idle, loaded := 0, history := [] } else none

/-- The channel once `n` clones of the first receiver are there, and that one is dropped. -/
def spawned (init : α) (n : Nat) : Channel α where
  shared := { (channel init).shared with receiversCount := n }
  sender := .idle
  rx k := if 1 ≤ k ∧ k ≤ n then some { lastObserved := 0, pc := .idle, loaded := 0, history := [] } else none

/-- `replace_value`: the write lock makes the new value and the new id one step for every reader. -/
def Published.replaceValue (p : Published α) (val : α) : Published α :=
  { value := val, id := p.id + 1, version := p.version + 1 }

/-- Where a call goes when it has its result: the guard of `wait_for_change`'s mutex is still to be
    dropped when the call took it. -/
def Site.exit : Site → RxPc
  | .getChanged | .unlocked => .idle
  | .locked | .woken => .release

/-- Where a call goes when the id is the one last observed. After a wake-up the ids are not compared. -/
def Site.unchanged : Site → RxPc
  | .getChanged => .idle
  | .unlocked => .acquire
  | .locked => .enqueue
  | .woken => .clone .woken

/-- One step of `get_changed` or `wait_for_change` in receiver `k`. -/
def Receiver.step (k : Nat) (s : Shared α) (r : Receiver α) : Option (Shared α × Receiver α) :=
  match r.pc with
  | .idle | .waiting => none
  | .alive site => some (s, { r with pc := if s.senderAlive then .load site else site.exit })
  | .load site =>
    if site ≠ .woken ∧ r.lastObserved = s.id then some (s, { r with pc := site.unchanged })
    else some (s, { r with lastObserved := s.id, loaded := s.version, pc := .clone site })
  | .clone site =>
    some (s, { r with history := ⟨s.value, s.version, r.loaded⟩ :: r.history, pc := site.exit })
  | .acquire =>
    if s.waitForChange = none then
      some ({ s with waitForChange := some (.receiver k) }, { r with pc := .alive .locked })
    else none
  -- `Condvar::wait` releases the mutex and enqueues in one step.
  | .enqueue => some ({ s with waitForChange := none }, { r with pc := .waiting })
  | .reacquire =>
    if s.waitForChange = none then
      some ({ s with waitForChange := some (.receiver k) }, { r with pc := .alive .woken })
    else none
  | .release => some ({ s with waitForChange := none }, { r with pc := .idle })

/-- `notify_all` for one receiver. -/
def Receiver.wake (r : Receiver α) : Receiver α :=
  if r.pc = .waiting then { r with pc := .reacquire } else r

/-- One step of the rest of `send` (after its look at the receiver count) or of `drop`. -/
def Channel.senderStep (c : Channel α) : Option (Channel α) :=
  match c.sender with
  | .idle | .dropped => none
  | .replace val =>
    some { c with shared := { c.shared with toPublished := c.shared.toPublished.replaceValue val },
                  sender := .acquire false }
  | .acquire dropping =>
    if c.shared.waitForChange = none then
      some { c with shared := { c.shared with waitForChange := some .sender }, sender := .notify dropping }
    else none
  | .notify dropping =>
    some { c with rx := fun k => (c.rx k).map Receiver.wake, sender := .release dropping }
  | .release dropping =>
    some { c with shared := { c.shared with waitForChange := none },
                  sender := if dropping then .dropped else .idle }

def Channel.setRx (c : Channel α) (k : Nat) (r : Option (Receiver α)) : Channel α :=
  { c with rx := Function.update c.rx k r }

/-- A receiver starts a call, is cloned or is dropped only between two calls: `get_changed` and
    `wait_for_change` borrow it exclusively. -/
def Channel.idleRx (c : Channel α) (k : Nat) : Option (Receiver α) :=
  (c.rx k).filter fun r => r.pc = .idle

def step (c : Channel α) : Action α → Option (Channel α)
  | .send val =>
    match c.sender with
    | .idle => some { c with sender := if c.shared.receiversCount = 0 then .idle else .replace val }
    | _ => none
  | .drop =>
    match c.sender with
    | .idle => some { c with shared := { c.shared with senderAlive := false }, sender := .acquire true }
    | _ => none
  | .sender => c.senderStep
  | .getChanged k => (c.idleRx k).map fun r => c.setRx k (some { r with pc := .alive .getChanged })
  | .waitForChange k => (c.idleRx k).map fun r => c.setRx k (some { r with pc := .alive .unlocked })
  | .receiver k =>
    (c.rx k).bind fun r => (r.step k c.shared).map fun next =>
      { c.setRx k (some next.2) with shared := next.1 }
  | .clone k j =>
    if c.rx j = none then
      (c.idleRx k).map fun r =>
        { c.setRx j (some r) with
          shared := { c.shared with receiversCount := c.shared.receiversCount + 1 } }
    else none
  | .dropReceiver k =>
    (c.idleRx k).map fun _ =>
      { c.setRx k none with shared := { c.shared with receiversCount := c.shared.receiversCount - 1 } }
  -- `Condvar::wait` may return without a notification.
  | .spurious k =>
    ((c.rx k).filter fun r => r.pc = .waiting).map fun r => c.setRx k (some { r with pc := .reacquire })

end Steps

/-! ### What a step changes -/

section Changes
variable {α : Type} {c c' : Channel α} {a : Action α} {s s' : Shared α} {r r' : Receiver α} {j k : Nat}

theorem Channel.idleRx_eq_some : c.idleRx k = some r ↔ c.rx k = some r ∧ r.pc = .idle := by
  unfold Channel.idleRx
  rw [Option.filter_eq_some_iff, decide_eq_true_iff]

@[simp] theorem Channel.setRx_rx (x : Option (Receiver α)) :
    (c.setRx k x).rx j = if j = k then x else c.rx j := Function.update_apply ..

@[simp] theorem Channel.setRx_setRx (x y : Option (Receiver α)) :
    (c.setRx k x).setRx k y = c.setRx k y := by
  unfold Channel.setRx
  rw [Function.update_idem]

@[simp] theorem channel_rx_eq_some (init : α) :
    (channel init).rx k = some r ↔ k = 0 ∧ r = ⟨0, .idle, 0, []⟩ := by
  simp only [channel]
  split
  · next hk => simp [hk, eq_comm]
  · next hk => simp [hk]

theorem step_send {val : α} (h : step c (.send val) = some c') :
    c.sender = .idle ∧ ∃ pc, (pc = .idle ∨ pc = .replace val) ∧ c' = { c with sender := pc } := by
  simp only [step] at h
  split at h
  · next hidle =>
    cases h
    refine ⟨hidle, _, ?_, rfl⟩
    split
    · exact .inl rfl
    · exact .inr rfl
  · cases h

theorem step_drop (h : step c .drop = some c') : c.sender = .idle ∧
    c' = { c with shared := { c.shared with senderAlive := false }, sender := .acquire true } := by
  simp only [step] at h
  split at h
  · next hidle =>
    cases h
    exact ⟨hidle, rfl⟩
  · cases h

theorem step_clone (h : step c (.clone k j) = some c') : c.rx j = none ∧
    ∃ r, c.rx k = some r ∧ r.pc = .idle ∧ c' = { c.setRx j (some r) with
      shared := { c.shared with receiversCount := c.shared.receiversCount + 1 } } := by
  obtain ⟨hnone, hclone⟩ := Option.ite_none_right_eq_some.mp h
  obtain ⟨r, hidle, rfl⟩ := Option.map_eq_some_iff.mp hclone
  obtain ⟨hr, hpc⟩ := Channel.idleRx_eq_some.mp hidle
  exact ⟨hnone, r, hr, hpc, rfl⟩

theorem step_receiver (h : step c (.receiver k) = some c') :
    ∃ r r', c.rx k = some r ∧ r.step k c.shared = some (c'.shared, r') ∧ c'.sender = c.sender ∧
      c'.rx = (c.setRx k (some r')).rx := by
  obtain ⟨r, hr, hnext⟩ := Option.bind_eq_some_iff.mp h
  obtain ⟨⟨s', r'⟩, hs, rfl⟩ := Option.map_eq_some_iff.mp hnext
  exact ⟨r, r', hr, hs, rfl, rfl⟩

/-- The seven ways on of a receiver that is in a call. -/
theorem Receiver.step_cases (h : r.step k s = some (s', r')) :
    (∃ site, r.pc = .alive site ∧ s' = s ∧
      r' = { r with pc := if s.senderAlive then .load site else site.exit }) ∨
    (∃ site, r.pc = .load site ∧ site ≠ .woken ∧ r.lastObserved = s.id ∧ s' = s ∧
      r' = { r with pc := site.unchanged }) ∨
    (∃ site, r.pc = .load site ∧ (site = .woken ∨ r.lastObserved ≠ s.id) ∧ s' = s ∧
      r' = { r with lastObserved := s.id, loaded := s.version, pc := .clone site }) ∨
    (∃ site, r.pc = .clone site ∧ s' = s ∧
      r' = { r with history := ⟨s.value, s.version, r.loaded⟩ :: r.history, pc := site.exit }) ∨
    (∃ site, (r.pc = .acquire ∧ site = .locked ∨ r.pc = .reacquire ∧ site = .woken) ∧
      s.waitForChange = none ∧ s' = { s with waitForChange := some (.receiver k) } ∧
      r' = { r with pc := .alive site }) ∨
    (r.pc = .enqueue ∧ s' = { s with waitForChange := none } ∧ r' = { r with pc := .waiting }) ∨
    (r.pc = .release ∧ s' = { s with waitForChange := none } ∧ r' = { r with pc := .idle }) := by
  unfold Receiver.step at h
  cases hpc : r.pc with
  | idle | waiting =>
    rw [hpc] at h
    cases h
  | alive site =>
    rw [hpc] at h
    cases h
    exact .inl ⟨site, rfl, rfl, rfl⟩
  | load site =>
    simp only [hpc] at h
    split at h
    · next hcond =>
      cases h
      exact .inr (.inl ⟨site, rfl, hcond.1, hcond.2, rfl, rfl⟩)
    · next hcond =>
      cases h
      refine .inr (.inr (.inl ⟨site, rfl, ?_, rfl, rfl⟩))
      by_cases hsite : site = .woken
      · exact .inl hsite
      · exact .inr fun heq => hcond ⟨hsite, heq⟩
  | clone site =>
    rw [hpc] at h
    cases h
    exact .inr (.inr (.inr (.inl ⟨site, rfl, rfl, rfl⟩)))
  | acquire =>
    simp only [hpc] at h
    split at h
    · next hfree =>
      cases h
      exact .inr (.inr (.inr (.inr (.inl ⟨.locked, .inl ⟨rfl, rfl⟩, hfree, rfl, rfl⟩))))
    · cases h
  | enqueue =>
    rw [hpc] at h
    cases h
    exact .inr (.inr (.inr (.inr (.inr (.inl ⟨rfl, rfl, rfl⟩)))))
  | reacquire =>
    simp only [hpc] at h
    split at h
    · next hfree =>
      cases h
      exact .inr (.inr (.inr (.inr (.inl ⟨.woken, .inr ⟨rfl, rfl⟩, hfree, rfl, rfl⟩))))
    · cases h
  | release =>
    rw [hpc] at h
    cases h
    exact .inr (.inr (.inr (.inr (.inr (.inr ⟨rfl, rfl, rfl⟩)))))

theorem Receiver.step_load {site : Site} (hpc : r.pc = .load site) (h : r.step k s = some (s', r')) :
    (site ≠ .woken ∧ r.lastObserved = s.id ∧ r' = { r with pc := site.unchanged }) ∨
    ((site = .woken ∨ r.lastObserved ≠ s.id) ∧
      r' = { r with lastObserved := s.id, loaded := s.version, pc := .clone site }) := by
  rcases step_cases h with ⟨_, hpc', _⟩ | ⟨_, hpc', hsite, heq, _, rfl⟩ | ⟨_, hpc', hcond, _, rfl⟩ | ⟨_, hpc', _⟩ |
    ⟨_, ⟨hpc', _⟩ | ⟨hpc', _⟩, _⟩ | ⟨hpc', _⟩ | ⟨hpc', _⟩ <;> rw [hpc] at hpc' <;> cases hpc'
  · exact .inl ⟨hsite, heq, rfl⟩
  · exact .inr ⟨hcond, rfl⟩

theorem Receiver.step_published (h : r.step k s = some (s', r')) :
    s'.toPublished = s.toPublished ∧ s'.senderAlive = s.senderAlive := by
  rcases step_cases h with ⟨_, _, rfl, _⟩ | ⟨_, _, _, _, rfl, _⟩ | ⟨_, _, _, rfl, _⟩ | ⟨_, _, rfl, _⟩ |
    ⟨_, _, _, rfl, _⟩ | ⟨_, rfl, _⟩ | ⟨_, rfl, _⟩ <;> exact ⟨rfl, rfl⟩

/-- The rest of `send` or `drop`, step by step. -/
theorem senderStep_cases (h : step c .sender = some c') :
    (∃ val, c.sender = .replace val ∧ c' = { c with
      shared := { c.shared with toPublished := c.shared.toPublished.replaceValue val },
      sender := .acquire false }) ∨
    (∃ dropping, c.sender = .acquire dropping ∧ c.shared.waitForChange = none ∧ c' = { c with
      shared := { c.shared with waitForChange := some .sender }, sender := .notify dropping }) ∨
    (∃ dropping, c.sender = .notify dropping ∧ c' = { c with
      rx := fun k => (c.rx k).map Receiver.wake, sender := .release dropping }) ∨
    (∃ dropping, c.sender = .release dropping ∧ c' = { c with
      shared := { c.shared with waitForChange := none },
      sender := if dropping then .dropped else .idle }) := by
  simp only [step, Channel.senderStep] at h
  cases hpc : c.sender with
  | idle | dropped =>
    rw [hpc] at h
    cases h
  | replace val =>
    rw [hpc] at h
    cases h
    exact .inl ⟨val, rfl, rfl⟩
  | acquire dropping =>
    simp only [hpc] at h
    split at h
    · next hfree =>
      cases h
      exact .inr (.inl ⟨dropping, rfl, hfree, rfl⟩)
    · cases h
  | notify dropping =>
    rw [hpc] at h
    cases h
    exact .inr (.inr (.inl ⟨dropping, rfl, rfl⟩))
  | release dropping =>
    rw [hpc] at h
    cases h
    exact .inr (.inr (.inr ⟨dropping, rfl, rfl⟩))

theorem Receiver.wake_eq (r : Receiver α) :
    (r.pc = .waiting ∧ r.wake = { r with pc := .reacquire }) ∨ (r.pc ≠ .waiting ∧ r.wake = r) := by
  unfold Receiver.wake
  split
  · next hw => exact .inl ⟨hw, rfl⟩
  · next hw => exact .inr ⟨hw, rfl⟩

/-- A step seen from a receiver: it moved itself, it starts a call, it was woken, it is a clone of an
    idle receiver, or others moved. -/
theorem step_rx (h : step c a = some c') (hr' : c'.rx k = some r') :
    (∃ r, a = .receiver k ∧ c.rx k = some r ∧ r.step k c.shared = some (c'.shared, r')) ∨
    (∃ r site, (site = .getChanged ∨ site = .unlocked) ∧ c.rx k = some r ∧ r.pc = .idle ∧
      c'.shared = c.shared ∧ r' = { r with pc := .alive site }) ∨
    (∃ r, c.rx k = some r ∧ r.pc = .waiting ∧ c'.shared = c.shared ∧ r' = { r with pc := .reacquire }) ∨
    (∃ p, c.rx p = some r' ∧ r'.pc = .idle ∧
      c'.shared = { c.shared with receiversCount := c.shared.receiversCount + 1 }) ∨
    (a ≠ .receiver k ∧ c.rx k = some r') := by
  cases a with
  | send val =>
    obtain ⟨-, _, -, rfl⟩ := step_send h
    exact .inr (.inr (.inr (.inr ⟨nofun, hr'⟩)))
  | drop =>
    obtain ⟨-, rfl⟩ := step_drop h
    exact .inr (.inr (.inr (.inr ⟨nofun, hr'⟩)))
  | sender =>
    rcases senderStep_cases h with ⟨_, _, rfl⟩ | ⟨_, _, _, rfl⟩ | ⟨_, _, rfl⟩ | ⟨_, _, rfl⟩
    · exact .inr (.inr (.inr (.inr ⟨nofun, hr'⟩)))
    · exact .inr (.inr (.inr (.inr ⟨nofun, hr'⟩)))
    · obtain ⟨r, hr, rfl⟩ := Option.map_eq_some_iff.mp hr'
      rcases r.wake_eq with ⟨hpc, heq⟩ | ⟨_, heq⟩
      · exact .inr (.inr (.inl ⟨r, hr, hpc, rfl, heq⟩))
      · rw [heq]
        exact .inr (.inr (.inr (.inr ⟨nofun, hr⟩)))
    · exact .inr (.inr (.inr (.inr ⟨nofun, hr'⟩)))
  | getChanged j | waitForChange j =>
    obtain ⟨r, hidle, rfl⟩ := Option.map_eq_some_iff.mp h
    obtain ⟨hr, hpc⟩ := Channel.idleRx_eq_some.mp hidle
    rw [Channel.setRx_rx] at hr'
    split at hr'
    · next hk =>
      subst hk
      cases hr'
      exact .inr (.inl ⟨r, _, by simp, hr, hpc, rfl, rfl⟩)
    · exact .inr (.inr (.inr (.inr ⟨nofun, hr'⟩)))
  | receiver j =>
    obtain ⟨r, x, hr, hs, -, hrx⟩ := step_receiver h
    rw [hrx, Channel.setRx_rx] at hr'
    split at hr'
    · next hk =>
      subst hk
      cases hr'
      exact .inl ⟨r, rfl, hr, hs⟩
    · next hk =>
      refine .inr (.inr (.inr (.inr ⟨fun heq => ?_, hr'⟩)))
      cases heq
      exact hk rfl
  | clone p j =>
    obtain ⟨-, r, hr, hpc, rfl⟩ := step_clone h
    rw [Channel.setRx_rx] at hr'
    split at hr'
    · cases hr'
      exact .inr (.inr (.inr (.inl ⟨p, hr, hpc, rfl⟩)))
    · exact .inr (.inr (.inr (.inr ⟨nofun, hr'⟩)))
  | dropReceiver j =>
    obtain ⟨r, _, rfl⟩ := Option.map_eq_some_iff.mp h
    rw [Channel.setRx_rx] at hr'
    split at hr'
    · cases hr'
    · exact .inr (.inr (.inr (.inr ⟨nofun, hr'⟩)))
  | spurious j =>
    obtain ⟨r, hwait, rfl⟩ := Option.map_eq_some_iff.mp h
    obtain ⟨hr, hpc⟩ := Option.filter_eq_some_iff.mp hwait
    rw [Channel.setRx_rx] at hr'
    split at hr'
    · next hk =>
      subst hk
      cases hr'
      exact .inr (.inr (.inl ⟨r, hr, by simpa using hpc, rfl, rfl⟩))
    · exact .inr (.inr (.inr (.inr ⟨nofun, hr'⟩)))

/-- Nobody else moves a receiver that is in a call and not asleep. -/
theorem step_rx_kept (h : step c a = some c') (hr : c.rx k = some r) (hidle : r.pc ≠ .idle)
    (hwait : r.pc ≠ .waiting) (ha : a ≠ .receiver k) : c'.rx k = some r := by
  have hother : ∀ {j x}, c.rx j = some x → (x.pc = .idle ∨ x.pc = .waiting) → k ≠ j := by
    rintro j x hx hpc rfl
    rw [hr] at hx
    cases hx
    exact hpc.elim hidle hwait
  cases a with
  | send val =>
    obtain ⟨-, _, -, rfl⟩ := step_send h
    exact hr
  | drop =>
    obtain ⟨-, rfl⟩ := step_drop h
    exact hr
  | sender =>
    rcases senderStep_cases h with ⟨_, _, rfl⟩ | ⟨_, _, _, rfl⟩ | ⟨_, _, rfl⟩ | ⟨_, _, rfl⟩
    · exact hr
    · exact hr
    · refine Option.map_eq_some_iff.mpr ⟨r, hr, ?_⟩
      rcases r.wake_eq with ⟨hpc, _⟩ | ⟨_, heq⟩
      · exact absurd hpc hwait
      · exact heq
    · exact hr
  | getChanged j | waitForChange j | dropReceiver j =>
    obtain ⟨x, hx, rfl⟩ := Option.map_eq_some_iff.mp h
    obtain ⟨hx, hpc⟩ := Channel.idleRx_eq_some.mp hx
    rw [Channel.setRx_rx, if_neg (hother hx (.inl hpc)), hr]
  | receiver j =>
    obtain ⟨x, x', _, _, _, hrx⟩ := step_receiver h
    have hne : k ≠ j := by
      rintro rfl
      exact ha rfl
    rw [hrx, Channel.setRx_rx, if_neg hne, hr]
  | clone p j =>
    obtain ⟨hnone, x, -, -, rfl⟩ := step_clone h
    have hne : k ≠ j := by
      rintro rfl
      rw [hr] at hnone
      cases hnone
    rw [Channel.setRx_rx, if_neg hne, hr]
  | spurious j =>
    obtain ⟨x, hx, rfl⟩ := Option.map_eq_some_iff.mp h
    obtain ⟨hx, hpc⟩ := Option.filter_eq_some_iff.mp hx
    rw [Channel.setRx_rx, if_neg (hother hx (.inr (by simpa using hpc))), hr]

/-- A step seen from the sender: it goes on with `send` or `drop`, starts one of them, or a receiver
    moved, which leaves what is published. -/
theorem step_cases (h : step c a = some c') :
    a = .sender ∨
    (c.sender = .idle ∧ ∃ pc, (pc = .idle ∨ ∃ val, pc = .replace val) ∧ c' = { c with sender := pc }) ∨
    (c.sender = .idle ∧
      c' = { c with shared := { c.shared with senderAlive := false }, sender := .acquire true }) ∨
    (c'.sender = c.sender ∧ c'.shared.toPublished = c.shared.toPublished ∧
      c'.shared.senderAlive = c.shared.senderAlive ∧
      (c'.shared.waitForChange = c.shared.waitForChange ∨
        ∃ k r r', a = .receiver k ∧ c.rx k = some r ∧ r.step k c.shared = some (c'.shared, r'))) := by
  cases a with
  | send val =>
    obtain ⟨hidle, pc, hpc, rfl⟩ := step_send h
    exact .inr (.inl ⟨hidle, pc, hpc.imp_right fun heq => ⟨val, heq⟩, rfl⟩)
  | drop =>
    obtain ⟨hidle, rfl⟩ := step_drop h
    exact .inr (.inr (.inl ⟨hidle, rfl⟩))
  | sender => exact .inl rfl
  | getChanged j | waitForChange j | dropReceiver j | spurious j =>
    obtain ⟨r, _, rfl⟩ := Option.map_eq_some_iff.mp h
    exact .inr (.inr (.inr ⟨rfl, rfl, rfl, .inl rfl⟩))
  | receiver j =>
    obtain ⟨r, r', hr, hs, hsender, _⟩ := step_receiver h
    obtain ⟨hpub, halive⟩ := Receiver.step_published hs
    exact .inr (.inr (.inr ⟨hsender, hpub, halive, .inr ⟨j, r, r', rfl, hr, hs⟩⟩))
  | clone p j =>
    obtain ⟨-, r, -, -, rfl⟩ := step_clone h
    exact .inr (.inr (.inr ⟨rfl, rfl, rfl, .inl rfl⟩))

/-- Only `replace_value` publishes, and it moves no receiver. -/
theorem step_published (h : step c a = some c') :
    c'.shared.toPublished = c.shared.toPublished ∨
      (a = .sender ∧ c'.rx = c.rx ∧
        ∃ val, c.sender = .replace val ∧ c'.shared.toPublished = c.shared.toPublished.replaceValue val) := by
  rcases step_cases h with rfl | ⟨_, _, _, rfl⟩ | ⟨_, rfl⟩ | ⟨_, hpub, _⟩
  · rcases senderStep_cases h with ⟨val, hval, rfl⟩ | ⟨_, _, _, rfl⟩ | ⟨_, _, rfl⟩ | ⟨_, _, rfl⟩
    · exact .inr ⟨rfl, rfl, val, hval, rfl⟩
    · exact .inl rfl
    · exact .inl rfl
    · exact .inl rfl
  · exact .inl rfl
  · exact .inl rfl
  · exact .inl hpub

end Changes
end CryptixMiner.Watch
