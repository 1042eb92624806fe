import CryptixMiner.Watch.Channel
import Mathlib.Algebra.Group.Nat.Defs

/-! A receiver and the versions it has seen. `last_observed` is the id of the version current at the
    load, and the value cloned after the load is at least that new; so an id found unchanged says that
    the last value obtained is the current one, as long as the ids have not come round. -/

namespace CryptixMiner.Watch
open StepSystem

section Freshness
variable {α : Type} {c c' : Channel α} {a : Action α} {s s' : Shared α} {p : Published α}
  {r r' : Receiver α} {k : Nat} {site : Site}

/-- The version last obtained, 0 before the first. -/
def Receiver.seen (r : Receiver α) : Nat := (r.history.head?.map Obtained.version).getD 0

/-- The values published by `send`; the channel starts with version 1. -/
def Channel.sends (c : Channel α) : Nat := c.shared.version - 1

/-- Between the load of the id and the clone of the value. -/
def RxPc.cloning : RxPc → Bool
  | .clone _ => true
  | _ => false

@[simp] theorem Site.exit_cloning (site : Site) : site.exit.cloning = false := by cases site <;> rfl

/-- The id counts the versions, modulo 2^64. -/
structure Published.Numbered (p : Published α) : Prop where
  version_pos : 1 ≤ p.version
  id_eq : p.id = UInt64.ofNat p.version

/-- How what a receiver has loaded and obtained relates to what is published. -/
structure Receiver.Traced (p : Published α) (r : Receiver α) : Prop where
  lastObserved_eq : r.lastObserved = UInt64.ofNat r.loaded
  loaded_le : r.loaded ≤ p.version
  seen_le : r.seen ≤ p.version
  current : ∀ o, r.history.head? = some o → o.version = p.version → o.value = p.value
  loaded_le_seen : r.pc.cloning = false → r.loaded ≤ r.seen
  unloaded : r.loaded = 0 → r.pc.cloning = false ∧ r.history = []

structure Channel.Traced (c : Channel α) : Prop where
  numbered : c.shared.Numbered
  rx : ∀ k r, c.rx k = some r → r.Traced c.shared.toPublished

/-! ### One step -/

theorem Published.Numbered.replaceValue (h : p.Numbered) (val : α) : (p.replaceValue val).Numbered where
  version_pos := Nat.le_add_left 1 _
  id_eq := by
    simp only [Published.replaceValue]
    rw [h.id_eq, UInt64.ofNat_add]
    rfl

theorem Receiver.Traced.replaceValue (h : r.Traced p) (val : α) : r.Traced (p.replaceValue val) where
  lastObserved_eq := h.lastObserved_eq
  loaded_le := Nat.le_succ_of_le h.loaded_le
  seen_le := Nat.le_succ_of_le h.seen_le
  current o ho hv := by
    -- Nothing obtained so far is as new as the value just published.
    have hseen : r.seen = o.version := by simp [Receiver.seen, ho]
    have hle := h.seen_le
    rw [hseen, hv] at hle
    exact absurd hle (Nat.not_succ_le_self _)
  loaded_le_seen := h.loaded_le_seen
  unloaded := h.unloaded

/-- Moving on without loading or obtaining anything. -/
theorem Receiver.Traced.withPc (h : r.Traced p) (hpc : r.pc.cloning = false) {pc : RxPc}
    (hpc' : pc.cloning = false) : ({ r with pc := pc } : Receiver α).Traced p where
  lastObserved_eq := h.lastObserved_eq
  loaded_le := h.loaded_le
  seen_le := h.seen_le
  current := h.current
  loaded_le_seen _ := h.loaded_le_seen hpc
  unloaded h0 := ⟨hpc', (h.unloaded h0).2⟩

theorem Receiver.Traced.load (h : r.Traced p) (hnum : p.Numbered) (site : Site) :
    ({ r with lastObserved := p.id, loaded := p.version, pc := .clone site } : Receiver α).Traced p where
  lastObserved_eq := hnum.id_eq
  loaded_le := Nat.le_refl _
  seen_le := h.seen_le
  current := h.current
  loaded_le_seen hno := nomatch hno
  unloaded h0 := absurd hnum.version_pos (Nat.not_le.mpr (Nat.lt_succ_of_le (Nat.le_of_eq h0)))

theorem Receiver.Traced.clone (h : r.Traced p) (hpc : r.pc = .clone site) : Receiver.Traced p
    { r with history := ⟨p.value, p.version, r.loaded⟩ :: r.history, pc := site.exit } where
  lastObserved_eq := h.lastObserved_eq
  loaded_le := h.loaded_le
  seen_le := Nat.le_refl _
  current o ho _ := by
    cases ho
    rfl
  loaded_le_seen _ := h.loaded_le
  unloaded h0 := by
    have hno := (h.unloaded h0).1
    rw [hpc] at hno
    cases hno

/-- A step of a receiver loads the id, clones the value, or neither. -/
theorem Receiver.step_kind (hs : r.step k s = some (s', r')) :
    (r.pc.cloning = false ∧ ∃ pc : RxPc, pc.cloning = false ∧ r' = { r with pc := pc }) ∨
    (∃ site, r.pc = .load site ∧ (site = .woken ∨ r.lastObserved ≠ s.id) ∧
      r' = { r with lastObserved := s.id, loaded := s.version, pc := .clone site }) ∨
    (∃ site, r.pc = .clone site ∧
      r' = { r with history := ⟨s.value, s.version, r.loaded⟩ :: r.history, pc := site.exit }) := by
  rcases step_cases hs with ⟨site, hpc, -, rfl⟩ | ⟨site, hpc, hsite, -, -, rfl⟩ | ⟨site, hpc, hcond, -, rfl⟩ |
    ⟨site, hpc, -, rfl⟩ | ⟨site, hpc, -, -, rfl⟩ | ⟨hpc, -, rfl⟩ | ⟨hpc, -, rfl⟩
  · refine .inl ⟨by rw [hpc]; rfl, _, ?_, rfl⟩
    split
    · rfl
    · exact site.exit_cloning
  · refine .inl ⟨by rw [hpc]; rfl, _, ?_, rfl⟩
    cases site with
    | woken => exact absurd rfl hsite
    | getChanged | unlocked | locked => rfl
  · exact .inr (.inl ⟨site, hpc, hcond, rfl⟩)
  · exact .inr (.inr ⟨site, hpc, rfl⟩)
  · exact .inl ⟨by rcases hpc with ⟨hpc, -⟩ | ⟨hpc, -⟩ <;> rw [hpc] <;> rfl, _, rfl, rfl⟩
  · exact .inl ⟨by rw [hpc]; rfl, _, rfl, rfl⟩
  · exact .inl ⟨by rw [hpc]; rfl, _, rfl, rfl⟩

theorem Receiver.Traced.step (h : r.Traced s.toPublished) (hnum : s.Numbered)
    (hs : r.step k s = some (s', r')) : r'.Traced s'.toPublished := by
  rw [(step_published hs).1]
  rcases step_kind hs with ⟨hpc, pc, hpc', rfl⟩ | ⟨site, -, -, rfl⟩ | ⟨site, hpc, rfl⟩
  · exact h.withPc hpc hpc'
  · exact h.load hnum site
  · exact h.clone hpc

theorem Channel.Traced.kept (h : c.Traced) (hs : step c a = some c') : c'.Traced := by
  rcases step_published hs with hpub | ⟨-, hrx, val, -, hpub⟩
  · have hnum : c'.shared.Numbered := hpub ▸ h.numbered
    refine ⟨hnum, fun k r' hr' => ?_⟩
    rcases step_rx hs hr' with ⟨r, -, hr, hstep⟩ | ⟨r, site, -, hr, hpc, hsh, rfl⟩ | ⟨r, hr, hpc, hsh, rfl⟩ |
      ⟨_, hr, -⟩ | ⟨-, hr⟩
    · exact (h.rx k r hr).step h.numbered hstep
    · rw [hsh]
      exact (h.rx k r hr).withPc (by rw [hpc]; rfl) rfl
    · rw [hsh]
      exact (h.rx k r hr).withPc (by rw [hpc]; rfl) rfl
    · rw [hpub]
      exact h.rx _ r' hr
    · rw [hpub]
      exact h.rx k r' hr
  · refine ⟨hpub ▸ h.numbered.replaceValue val, fun k r hr => ?_⟩
    rw [hrx] at hr
    exact hpub ▸ (h.rx k r hr).replaceValue val

theorem channel_traced (init : α) : (channel init).Traced where
  numbered := ⟨Nat.le_refl 1, rfl⟩
  rx k r hr := by
    obtain ⟨-, rfl⟩ := (channel_rx_eq_some init).mp hr
    exact ⟨rfl, Nat.zero_le _, Nat.zero_le _, nofun, fun _ => Nat.le_refl 0, fun _ => ⟨rfl, rfl⟩⟩

theorem Channel.Traced.of_reachable {init : α} (h : Reachable step (channel init) c) : c.Traced :=
  h.inv (channel_traced init) fun _ _ _ hc _ hs => hc.kept hs

/-! ### What an unchanged id says -/

theorem Receiver.Traced.lastObserved_le (h : r.Traced p) : r.lastObserved.toNat ≤ r.loaded := by
  rw [h.lastObserved_eq, UInt64.toNat_ofNat']
  exact Nat.mod_le _ _

/-- Two counts that agree modulo 2^64 are equal when the smaller is positive, or the larger below it. -/
theorem eq_of_ofNat_eq {m n : Nat} (h : UInt64.ofNat m = UInt64.ofNat n) (hle : m ≤ n) (hn : n ≤ 2 ^ 64)
    (hpos : 1 ≤ m ∨ n < 2 ^ 64) : m = n := by
  have hmod : m % 2 ^ 64 = n % 2 ^ 64 := by
    have := congrArg UInt64.toNat h
    rwa [UInt64.toNat_ofNat', UInt64.toNat_ofNat'] at this
  omega

/-- An id found unchanged was loaded for the current version, and that version was obtained. -/
theorem Receiver.Traced.unchanged (h : r.Traced p) (hnum : p.Numbered) (hpc : r.pc.cloning = false)
    (heq : r.lastObserved = p.id) (hle : p.version ≤ 2 ^ 64)
    (hpos : r.history ≠ [] ∨ p.version < 2 ^ 64) :
    ∃ o, r.history.head? = some o ∧ o.version = p.version ∧ o.value = p.value := by
  have hloaded : r.loaded = p.version := by
    refine eq_of_ofNat_eq (h.lastObserved_eq ▸ hnum.id_eq ▸ heq) h.loaded_le hle ?_
    refine hpos.imp_left fun hne => Nat.one_le_iff_ne_zero.mpr fun h0 => ?_
    exact hne (h.unloaded h0).2
  have hseen : r.seen = p.version := Nat.le_antisymm h.seen_le (hloaded ▸ h.loaded_le_seen hpc)
  cases hhead : r.history with
  | nil =>
    simp only [seen, hhead, List.head?_nil, Option.map_none, Option.getD_none] at hseen
    exact absurd hnum.version_pos (by omega)
  | cons o rest =>
    have hv : o.version = p.version := by simpa [seen, hhead] using hseen
    exact ⟨o, rfl, hv, h.current o (by rw [hhead]; rfl) hv⟩

/-- Outside the window between the load and the clone, `last_observed` is at most the version last
    obtained; inside it, at most the current version, which the clone gets or a later one. An id found
    unchanged means that the value last obtained is the current one: for fewer than 2^64 sends if any
    value was obtained, for fewer than 2^64 - 1 in any case. -/
theorem lastObserved_le_seen {init : α} {c : Channel α} (h : Reachable step (channel init) c) (k : Nat)
    (r : Receiver α) (hr : c.rx k = some r) :
    (r.pc.cloning = false → r.lastObserved.toNat ≤ r.seen) ∧
    (r.pc.cloning = true → r.lastObserved.toNat ≤ c.shared.version) ∧
    ∀ site c' r', site ≠ .woken → r.pc = .load site → step c (.receiver k) = some c' → c'.rx k = some r' →
      r'.pc = site.unchanged → c.sends < 2 ^ 64 → (r.history ≠ [] ∨ c.sends < 2 ^ 64 - 1) →
      ∃ o, r'.history.head? = some o ∧ o.version = c.shared.version ∧ o.value = c.shared.value := by
  have ht := Channel.Traced.of_reachable h
  have htr := ht.rx k r hr
  have hpos := ht.numbered.version_pos
  refine ⟨fun hpc => Nat.le_trans htr.lastObserved_le (htr.loaded_le_seen hpc),
    fun _ => Nat.le_trans htr.lastObserved_le htr.loaded_le, ?_⟩
  intro site c' r' hsite hpc hs hr' hpc' hsends hseen
  obtain ⟨x, x', hx, hstep, -, hrx⟩ := step_receiver hs
  rw [hr] at hx
  cases hx
  rw [hrx, Channel.setRx_rx, if_pos rfl] at hr'
  cases hr'
  rcases Receiver.step_load hpc hstep with ⟨-, hsame, rfl⟩ | ⟨-, rfl⟩
  · refine htr.unchanged ht.numbered (by rw [hpc]; rfl) hsame ?_ ?_
    · unfold Channel.sends at hsends
      omega
    · refine hseen.imp_right fun hlt => ?_
      unfold Channel.sends at hlt
      omega
  · -- The clone comes next, so the id was not found unchanged.
    cases site with
    | woken => exact absurd rfl hsite
    | getChanged | unlocked | locked => cases hpc'

/-- The second of two polls with no send between them. -/
theorem lastObserved_le_seen_twice : ∃ c c' : Channel Nat, ∃ r r', Reachable step (channel 7) c ∧
    c.rx 0 = some r ∧ r.pc = .load .getChanged ∧ step c (.receiver 0) = some c' ∧ c'.rx 0 = some r' ∧
    r'.pc = .idle ∧ r.lastObserved.toNat ≤ r.seen ∧
    ∃ o, r'.history.head? = some o ∧ o.version = c.shared.version ∧ o.value = c.shared.value := by
  have hreach : Reachable step (channel 7) _ := .of_run [.getChanged 0, .receiver 0, .receiver 0,
    .receiver 0, .getChanged 0, .receiver 0] rfl
  obtain ⟨hle, -, hsame⟩ := lastObserved_le_seen hreach 0 _ rfl
  exact ⟨_, _, _, _, hreach, rfl, rfl, rfl, rfl, rfl, hle rfl,
    hsame .getChanged _ _ nofun rfl rfl rfl rfl (by decide) (.inr (by decide))⟩

end Freshness

/-! ### The first id again

A receiver that never obtained anything has observed id 0, and 2^64 - 1 sends bring id 0 round. -/

/-- The channel after `n` sends of 1, ..., n, with a receiver that did nothing. -/
def afterSends (n : Nat) : Channel Nat :=
  { channel 0 with
    shared := { (channel 0).shared with value := n, id := UInt64.ofNat (n + 1), version := n + 1 } }

theorem run_send (n : Nat) :
    run step (afterSends n) [.send (n + 1), .sender, .sender, .sender, .sender] = some (afterSends (n + 1)) := by
  have hid : UInt64.ofNat (n + 1) + 1 = UInt64.ofNat (n + 1 + 1) := (UInt64.ofNat_add (n + 1) 1).symm
  have hrx : (fun k => ((afterSends n).rx k).map Receiver.wake) = (afterSends (n + 1)).rx := by
    funext k
    simp only [afterSends, channel]
    split <;> rfl
  calc run step (afterSends n) [.send (n + 1), .sender, .sender, .sender, .sender]
      = some { shared := { (channel 0).shared with value := n + 1, id := UInt64.ofNat (n + 1) + 1, version := n + 2 }
               sender := .idle
               rx := fun k => ((afterSends n).rx k).map Receiver.wake } := rfl
    _ = some (afterSends (n + 1)) := by
      rw [hid, hrx]
      rfl

theorem afterSends_reachable : ∀ n, Reachable step (channel 0) (afterSends n)
  | 0 => .init
  | n + 1 => (afterSends_reachable n).run (run_send n) along_true

/-- `afterSends n` once the receiver is about to load the id in `get_changed`. -/
def polling (n : Nat) : Channel Nat :=
  (afterSends n).setRx 0 (some { lastObserved := 0, pc := .load .getChanged, loaded := 0, history := [] })

theorem run_poll (n : Nat) : run step (afterSends n) [.getChanged 0, .receiver 0] = some (polling n) := by
  calc run step (afterSends n) [.getChanged 0, .receiver 0]
      = some (((afterSends n).setRx 0
          (some { lastObserved := 0, pc := .alive .getChanged, loaded := 0, history := [] })).setRx 0
          (some { lastObserved := 0, pc := .load .getChanged, loaded := 0, history := [] })) := rfl
    _ = some (polling n) := by
      rw [Channel.setRx_setRx]
      rfl

/-- The value that is polled for may be unseen; and between the load of an id and the clone of its value, the id is
    ahead of what was obtained. -/
theorem polling_unseen : (¬∀ c, Reachable step (channel 0) c → c.sends < 2 ^ 64 → ∀ k r c' r',
      c.rx k = some r → r.pc = .load .getChanged → step c (.receiver k) = some c' → c'.rx k = some r' →
      r'.pc = .idle → ∃ o, r'.history.head? = some o ∧ o.value = c.shared.value) ∧
    ¬∀ c, Reachable step (channel 0) c → c.sends < 2 ^ 64 → ∀ k r, c.rx k = some r → r.lastObserved.toNat ≤ r.seen := by
  constructor
  · intro h
    obtain ⟨o, ho, -⟩ := h (polling (2 ^ 64 - 1)) ((afterSends_reachable _).run (run_poll _) along_true)
      (by decide) 0 _ _ _ rfl rfl rfl rfl rfl
    cases ho
  · intro h
    have hloaded : Reachable step (channel 0) _ := .of_run [.getChanged 0, .receiver 0, .receiver 0] rfl
    exact absurd (h _ hloaded (by decide) 0 _ rfl) (by decide)

end CryptixMiner.Watch
