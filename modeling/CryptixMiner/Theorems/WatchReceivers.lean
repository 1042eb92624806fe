import CryptixMiner.Theorems.WatchWakeup
import CryptixMiner.Theorems.WatchFreshness
import Mathlib.Data.Finset.Card

/-! The receivers there are: the channel counts them, a clone alone makes one, and those of the threads are what clones
    of the first one leave. -/

namespace CryptixMiner.Watch
open StepSystem

section Receivers
variable {α : Type} {c c' : Channel α} {a : Action α} {n k : Nat} {init : α}

/-- The count is that of the receivers there are. -/
def Channel.Counted (c : Channel α) : Prop :=
  ∃ live : Finset Nat, live.card = c.shared.receiversCount ∧ ∀ k, k ∈ live ↔ (c.rx k).isSome

/-- In the drop of the sender, or past it. -/
def SenderPc.quits : SenderPc α → Bool
  | .acquire dropping | .notify dropping | .release dropping => dropping
  | .dropped => true
  | .idle | .replace _ => false

structure Channel.Regular (c : Channel α) : Prop where
  traced : c.Traced
  guarded : c.Guarded
  awake : c.Awake
  counted : c.Counted
  alive : c.shared.senderAlive = !c.sender.quits

theorem Channel.Counted.setRx_some {x : Shared α} {r r' : Receiver α} (h : c.Counted) (hr : c.rx k = some r)
    (hcount : x.receiversCount = c.shared.receiversCount) :
    Channel.Counted { c.setRx k (some r') with shared := x } := by
  obtain ⟨live, hcard, hlive⟩ := h
  refine ⟨live, hcard.trans hcount.symm, fun j => ?_⟩
  rw [Channel.setRx_rx]
  split
  · next hj =>
    subst hj
    rw [hlive j, hr]
    exact ⟨fun _ => rfl, fun _ => rfl⟩
  · exact hlive j

theorem Receiver.step_count {s s' : Shared α} {r r' : Receiver α} (h : r.step k s = some (s', r')) :
    s'.receiversCount = s.receiversCount := by
  rcases step_cases h with ⟨_, _, rfl, _⟩ | ⟨_, _, _, _, rfl, _⟩ | ⟨_, _, _, rfl, _⟩ | ⟨_, _, rfl, _⟩ |
    ⟨_, _, _, rfl, _⟩ | ⟨_, rfl, _⟩ | ⟨_, rfl, _⟩ <;> rfl

theorem Channel.Counted.kept (h : c.Counted) (hs : step c a = some c') : c'.Counted := by
  cases a with
  | send val =>
    obtain ⟨-, _, -, rfl⟩ := step_send hs
    exact h
  | drop =>
    obtain ⟨-, rfl⟩ := step_drop hs
    exact h
  | sender =>
    rcases senderStep_cases hs with ⟨_, _, rfl⟩ | ⟨_, _, _, rfl⟩ | ⟨_, _, rfl⟩ | ⟨_, _, rfl⟩
    · exact h
    · exact h
    · obtain ⟨live, hcard, hlive⟩ := h
      exact ⟨live, hcard, fun j => by rw [Option.isSome_map]; exact hlive j⟩
    · exact h
  | getChanged j | waitForChange j =>
    obtain ⟨r, hidle, rfl⟩ := Option.map_eq_some_iff.mp hs
    exact h.setRx_some (Channel.idleRx_eq_some.mp hidle).1 rfl
  | receiver j =>
    obtain ⟨r, hr, hnext⟩ := Option.bind_eq_some_iff.mp hs
    obtain ⟨⟨s', r'⟩, hstep, rfl⟩ := Option.map_eq_some_iff.mp hnext
    exact h.setRx_some hr (Receiver.step_count hstep)
  | clone p j =>
    obtain ⟨hnone, r, hr, -, rfl⟩ := step_clone hs
    obtain ⟨live, hcard, hlive⟩ := h
    have hnot : j ∉ live := by
      rw [hlive j, hnone]
      exact Bool.false_ne_true
    refine ⟨insert j live, by rw [Finset.card_insert_of_notMem hnot, hcard], fun i => ?_⟩
    rw [Finset.mem_insert, Channel.setRx_rx, hlive i]
    split
    · next hi => exact ⟨fun _ => rfl, fun _ => Or.inl hi⟩
    · next hi => exact or_iff_right hi
  | dropReceiver j =>
    obtain ⟨r, hidle, rfl⟩ := Option.map_eq_some_iff.mp hs
    obtain ⟨live, hcard, hlive⟩ := h
    have hmem : j ∈ live := by
      rw [hlive j, (Channel.idleRx_eq_some.mp hidle).1]
      rfl
    refine ⟨live.erase j, by rw [Finset.card_erase_of_mem hmem, hcard], fun i => ?_⟩
    rw [Finset.mem_erase, Channel.setRx_rx, hlive i]
    split
    · next hi => exact ⟨fun hmem => absurd hi hmem.1, fun hno => absurd hno Bool.false_ne_true⟩
    · next hi => exact and_iff_right hi
  | spurious j =>
    obtain ⟨r, hwait, rfl⟩ := Option.map_eq_some_iff.mp hs
    exact h.setRx_some (Option.filter_eq_some_iff.mp hwait).1 rfl

theorem step_senderAlive (hs : step c a = some c') (ha : a ≠ .drop) : c'.shared.senderAlive = c.shared.senderAlive := by
  cases a with
  | send val =>
    obtain ⟨-, _, -, rfl⟩ := step_send hs
    rfl
  | drop => exact absurd rfl ha
  | sender => rcases senderStep_cases hs with ⟨_, _, rfl⟩ | ⟨_, _, _, rfl⟩ | ⟨_, _, rfl⟩ | ⟨_, _, rfl⟩ <;> rfl
  | getChanged j | waitForChange j | dropReceiver j | spurious j =>
    obtain ⟨r, -, rfl⟩ := Option.map_eq_some_iff.mp hs
    rfl
  | receiver j =>
    obtain ⟨_, _, -, hstep, -, -⟩ := step_receiver hs
    exact (Receiver.step_published hstep).2
  | clone p j =>
    obtain ⟨-, r, -, -, rfl⟩ := step_clone hs
    rfl

/-- Only the drop makes the sender quit. -/
theorem step_quits (hs : step c a = some c') (ha : a ≠ .drop) : c'.sender.quits = c.sender.quits := by
  cases a with
  | send val =>
    obtain ⟨hidle, pc, hpc, rfl⟩ := step_send hs
    rw [hidle]
    rcases hpc with rfl | rfl <;> rfl
  | drop => exact absurd rfl ha
  | sender =>
    rcases senderStep_cases hs with ⟨_, hpc, rfl⟩ | ⟨_, hpc, _, rfl⟩ | ⟨_, hpc, rfl⟩ | ⟨dropping, hpc, rfl⟩
    · rw [hpc]
      rfl
    · rw [hpc]
      rfl
    · rw [hpc]
      rfl
    · rw [hpc]
      cases dropping <;> rfl
  | getChanged j | waitForChange j | dropReceiver j | spurious j =>
    obtain ⟨r, -, rfl⟩ := Option.map_eq_some_iff.mp hs
    rfl
  | receiver j =>
    obtain ⟨_, _, -, -, hsame, -⟩ := step_receiver hs
    rw [hsame]
  | clone p j =>
    obtain ⟨-, r, -, -, rfl⟩ := step_clone hs
    rfl

theorem Channel.Counted.rx_none (h : c.Counted) (h0 : c.shared.receiversCount = 0) (k : Nat) : c.rx k = none := by
  obtain ⟨live, hcard, hlive⟩ := h
  obtain rfl := Finset.card_eq_zero.mp (hcard.trans h0)
  cases hk : c.rx k with
  | none => rfl
  | some r => exact absurd ((hlive k).mpr (by rw [hk]; rfl)) (Finset.notMem_empty k)

theorem Channel.Regular.kept (h : c.Regular) (hs : step c a = some c') : c'.Regular := by
  refine ⟨h.traced.kept hs, h.guarded.kept hs, h.awake.kept h.guarded hs, h.counted.kept hs, ?_⟩
  by_cases hdrop : a = .drop
  · subst hdrop
    obtain ⟨-, rfl⟩ := step_drop hs
    rfl
  · rw [step_quits hs hdrop, ← h.alive]
    exact step_senderAlive hs hdrop

theorem channel_counted (init : α) : (channel init).Counted := by
  refine ⟨{0}, rfl, fun k => ?_⟩
  simp only [channel, Finset.mem_singleton]
  split
  · next hk => exact ⟨fun _ => rfl, fun _ => hk⟩
  · next hk => exact ⟨fun h => absurd h hk, fun h => absurd h Bool.false_ne_true⟩

theorem Channel.Regular.of_reachable (h : Reachable step (channel init) c) : c.Regular :=
  h.inv ⟨channel_traced init, channel_guarded init, channel_awake init, channel_counted init, rfl⟩
    fun _ _ _ hc _ hs => hc.kept hs

/-- `spawned` while the first receiver is still there. -/
def spawning (init : α) (n : Nat) : Channel α where
  shared := { (channel init).shared with receiversCount := n + 1 }
  sender := .idle
  rx k := if k ≤ n then some { lastObserved := 0, pc := .idle, loaded := 0, history := [] } else none

theorem spawning_zero (init : α) : spawning init 0 = channel init := by
  have hrx : (spawning init 0).rx = (channel init).rx := by
    funext k
    simp only [channel, spawning, Nat.le_zero]
  calc spawning init 0 = { channel init with rx := (spawning init 0).rx } := rfl
    _ = channel init := by rw [hrx]

theorem spawning_idleRx (init : α) (n : Nat) : (spawning init n).idleRx 0 = some ⟨0, .idle, 0, []⟩ :=
  Channel.idleRx_eq_some.mpr ⟨by simp only [spawning, Nat.zero_le, if_true], rfl⟩

theorem spawning_clone (init : α) (n : Nat) :
    step (spawning init n) (.clone 0 (n + 1)) = some (spawning init (n + 1)) := by
  have hfresh : (spawning init n).rx (n + 1) = none := if_neg (Nat.not_succ_le_self n)
  have hrx : ((spawning init n).setRx (n + 1) (some ⟨0, .idle, 0, []⟩)).rx = (spawning init (n + 1)).rx := by
    funext k
    rw [Channel.setRx_rx]
    simp only [spawning]
    split
    · next hk => rw [if_pos (Nat.le_of_eq hk)]
    · next hk => exact if_congr ⟨Nat.le_succ_of_le, fun hle => (Nat.le_succ_iff.mp hle).resolve_right hk⟩ rfl rfl
  simp only [step, hfresh, spawning_idleRx, if_true, Option.map_some, hrx]
  rfl

theorem spawned_reachable (init : α) (n : Nat) : Reachable step (channel init) (spawned init n) := by
  have hspawning : ∀ n, Reachable step (channel init) (spawning init n) := fun n => by
    induction n with
    | zero => exact spawning_zero init ▸ .init
    | succ n ih => exact ih.step trivial (spawning_clone init n)
  refine (hspawning n).step (a := .dropReceiver 0) trivial ?_
  have hrx : ((spawning init n).setRx 0 none).rx = (spawned init n).rx := by
    funext k
    rw [Channel.setRx_rx]
    simp only [spawning, spawned]
    split
    · next hk => rw [if_neg fun h => absurd hk (Nat.one_le_iff_ne_zero.mp h.1)]
    · next hk => exact if_congr ⟨fun hle => ⟨Nat.one_le_iff_ne_zero.mpr hk, hle⟩, And.right⟩ rfl rfl
  simp only [step, spawning_idleRx, Option.map_some, hrx]
  rfl

/-- A receiver is not made but by a clone. -/
theorem step_rx_none (hs : step c a = some c') (ha : ∀ p j, a ≠ .clone p j) (hk : c.rx k = none) : c'.rx k = none := by
  have hkept : ∀ {j x y}, c.rx j = some x → (c.setRx j y).rx k = none := fun {j x y} hx => by
    have hne : k ≠ j := by
      rintro rfl
      rw [hk] at hx
      cases hx
    rw [Channel.setRx_rx, if_neg hne, hk]
  cases a with
  | send val =>
    obtain ⟨-, _, -, rfl⟩ := step_send hs
    exact hk
  | drop =>
    obtain ⟨-, rfl⟩ := step_drop hs
    exact hk
  | sender =>
    rcases senderStep_cases hs with ⟨_, _, rfl⟩ | ⟨_, _, _, rfl⟩ | ⟨_, _, rfl⟩ | ⟨_, _, rfl⟩
    · exact hk
    · exact hk
    · exact Option.map_eq_none_iff.mpr hk
    · exact hk
  | getChanged j | waitForChange j | dropReceiver j =>
    obtain ⟨r, hidle, rfl⟩ := Option.map_eq_some_iff.mp hs
    exact hkept (Channel.idleRx_eq_some.mp hidle).1
  | receiver j =>
    obtain ⟨r, r', hr, -, -, hrx⟩ := step_receiver hs
    rw [hrx]
    exact hkept hr
  | clone p j => exact absurd rfl (ha p j)
  | spurious j =>
    obtain ⟨r, hwait, rfl⟩ := Option.map_eq_some_iff.mp hs
    exact hkept (Option.filter_eq_some_iff.mp hwait).1

/-- A receiver does not go but by its drop. -/
theorem step_rx_dropped (hs : step c a = some c') (hk : c.rx k ≠ none) (hk' : c'.rx k = none) : a = .dropReceiver k := by
  have hkept : ∀ {j y}, (c.setRx j (some y)).rx k ≠ none := fun {j y} => by
    rw [Channel.setRx_rx]
    split
    · nofun
    · exact hk
  cases a with
  | send val =>
    obtain ⟨-, _, -, rfl⟩ := step_send hs
    exact absurd hk' hk
  | drop =>
    obtain ⟨-, rfl⟩ := step_drop hs
    exact absurd hk' hk
  | sender =>
    rcases senderStep_cases hs with ⟨_, _, rfl⟩ | ⟨_, _, _, rfl⟩ | ⟨_, _, rfl⟩ | ⟨_, _, rfl⟩
    · exact absurd hk' hk
    · exact absurd hk' hk
    · exact absurd (Option.map_eq_none_iff.mp hk') hk
    · exact absurd hk' hk
  | getChanged j | waitForChange j | spurious j =>
    obtain ⟨r, -, rfl⟩ := Option.map_eq_some_iff.mp hs
    exact absurd hk' hkept
  | receiver j =>
    obtain ⟨r, r', -, -, -, hrx⟩ := step_receiver hs
    exact absurd (hrx ▸ hk') hkept
  | clone p j =>
    obtain ⟨-, r, -, -, rfl⟩ := step_clone hs
    exact absurd hk' hkept
  | dropReceiver j =>
    obtain ⟨r, -, rfl⟩ := Option.map_eq_some_iff.mp hs
    rw [Channel.setRx_rx] at hk'
    split at hk'
    · next hj => rw [hj]
    · exact absurd hk' hk

/-- What the sender is about to publish was given to `send`. -/
theorem step_replace {val : α} (hs : step c a = some c') (h : c'.sender = .replace val) :
    a = .send val ∨ c.sender = .replace val := by
  cases a with
  | send val' =>
    obtain ⟨-, pc, hpc, rfl⟩ := step_send hs
    rcases hpc with rfl | rfl <;> cases h
    exact Or.inl rfl
  | drop =>
    obtain ⟨-, rfl⟩ := step_drop hs
    cases h
  | sender =>
    rcases senderStep_cases hs with ⟨_, _, rfl⟩ | ⟨_, _, _, rfl⟩ | ⟨_, _, rfl⟩ | ⟨dropping, _, rfl⟩
    · cases h
    · cases h
    · cases h
    · cases dropping <;> cases h
  | getChanged j | waitForChange j | dropReceiver j | spurious j =>
    obtain ⟨r, -, rfl⟩ := Option.map_eq_some_iff.mp hs
    exact Or.inr h
  | receiver j =>
    obtain ⟨_, _, -, -, hsame, -⟩ := step_receiver hs
    exact Or.inr (hsame ▸ h)
  | clone p j =>
    obtain ⟨-, r, -, -, rfl⟩ := step_clone hs
    exact Or.inr h

/-! ### Calls that find a new id -/

/-- The steps that a call has left at most, when the id is a new one. -/
def RxPc.rest : RxPc → Nat
  | .idle => 0
  | .alive site => if site.guarded then 4 else 3
  | .load site => if site.guarded then 3 else 2
  | .clone site => if site.guarded then 2 else 1
  | .release => 1
  | .acquire | .reacquire => 5
  | .waiting => 6
  | .enqueue => 7

/-- The steps that the sender has left in a `send` or a drop. -/
def SenderPc.rest : SenderPc α → Nat
  | .replace _ => 4
  | .acquire _ => 3
  | .notify _ => 2
  | .release _ => 1
  | .idle | .dropped => 0

theorem RxPc.rest_le (pc : RxPc) : pc.rest ≤ 7 := by
  cases pc with
  | alive site | load site | clone site => cases site <;> decide
  | _ => decide

end Receivers
end CryptixMiner.Watch
