import CryptixMiner.Launch.FinalNonce

/-! What the host reads in the result cell. A compare-and-swap from 0 keeps the first nonce stored; a test
    and a plain store, with a reset that may come late, keep one only under a condition on the order. -/

namespace CryptixMiner.Launch
open StepSystem

/-! ### CUDA -/

namespace Cuda

section Steps
variable {l : Assignment} {noncesLen gid : Nat} {s s' : State Pc} {pc : Pc}

theorem step_cases (h : step l noncesLen s gid = some s') : gid < l.threads ∧
    ((s.pc gid = .entry ∧ (noncesLen ≤ gid ∨ s.finalNonce ≠ 0) ∧ s' = s.goTo gid .done) ∨
     (s.pc gid = .entry ∧ gid < noncesLen ∧ s' = s.goTo gid .hash) ∨
     (s.pc gid = .hash ∧ l.meets gid = true ∧ s' = s.goTo gid .cas) ∨
     (s.pc gid = .hash ∧ l.meets gid = false ∧ s' = s.goTo gid .done) ∨
     (s.pc gid = .cas ∧ s' = { s.goTo gid .done with finalNonce := atomicCas s.finalNonce (l.nonce gid) })) := by
  unfold step at h
  split at h
  · next hlt =>
    refine ⟨hlt, ?_⟩
    cases hpc : s.pc gid with
    | entry =>
      simp only [hpc] at h
      cases h
      by_cases hout : gid ≥ noncesLen ∨ s.finalNonce ≠ 0
      · exact .inl ⟨rfl, hout, by rw [if_pos hout]⟩
      · exact .inr (.inl ⟨rfl, Nat.not_le.mp fun hle => hout (.inl hle), by rw [if_neg hout]⟩)
    | hash =>
      simp only [hpc] at h
      cases h
      cases hmeets : l.meets gid with
      | true => exact .inr (.inr (.inl ⟨rfl, rfl, rfl⟩))
      | false => exact .inr (.inr (.inr (.inl ⟨rfl, rfl, rfl⟩)))
    | cas =>
      simp only [hpc] at h
      cases h
      exact .inr (.inr (.inr (.inr ⟨rfl, rfl⟩)))
    | done =>
      simp only [hpc] at h
      cases h
  · cases h

/-- The cell holds the nonce of a thread that may store it, and no thread that should have stored is done
    while it is empty. -/
structure Sound (l : Assignment) (noncesLen : Nat) (s : State Pc) : Prop where
  stored : s.finalNonce ≠ 0 → ∃ g, g < l.threads ∧ g < noncesLen ∧ l.meets g = true ∧ l.nonce g = s.finalNonce
  hashing : ∀ g, s.pc g = .hash → g < noncesLen
  passed : ∀ g, s.pc g = .cas → g < noncesLen ∧ l.meets g = true
  reported : ∀ g, g < noncesLen → l.nonce g ≠ 0 → l.meets g = true → s.pc g = .done → s.finalNonce ≠ 0

theorem start_sound : Sound l noncesLen start where
  stored h := absurd rfl h
  hashing _ h := nomatch h
  passed _ h := nomatch h
  reported _ _ _ _ h := nomatch h

/-- A move that leaves the cell: the thread's new place says what it has to. -/
theorem Sound.goTo (h : Sound l noncesLen s) (hhash : pc = .hash → gid < noncesLen)
    (hcas : pc = .cas → gid < noncesLen ∧ l.meets gid = true)
    (hdone : pc = .done → gid < noncesLen → l.nonce gid ≠ 0 → l.meets gid = true → s.finalNonce ≠ 0) :
    Sound l noncesLen (s.goTo gid pc) where
  stored := h.stored
  hashing g hg := by
    rw [State.goTo_pc] at hg
    split at hg
    · next heq => exact heq ▸ hhash hg
    · exact h.hashing g hg
  passed g hg := by
    rw [State.goTo_pc] at hg
    split at hg
    · next heq => exact heq ▸ hcas hg
    · exact h.passed g hg
  reported g hlen hne hmeets hg := by
    rw [State.goTo_pc] at hg
    split at hg
    · next heq =>
      subst heq
      exact hdone hg hlen hne hmeets
    · exact h.reported g hlen hne hmeets hg

theorem Sound.cas (h : Sound l noncesLen s) (hlt : gid < l.threads) (hpc : s.pc gid = .cas) : Sound l noncesLen
    { s.goTo gid .done with finalNonce := atomicCas s.finalNonce (l.nonce gid) } := by
  obtain ⟨hlen, hmeets⟩ := h.passed gid hpc
  by_cases h0 : s.finalNonce = 0
  · have hcell : atomicCas s.finalNonce (l.nonce gid) = l.nonce gid := if_pos h0
    rw [hcell]
    refine ⟨fun _ => ⟨gid, hlt, hlen, hmeets, rfl⟩, fun g hg => ?_, fun g hg => ?_, fun g hglen hne hgm hg => ?_⟩
    · rw [State.goTo_pc] at hg
      split at hg
      · cases hg
      · exact h.hashing g hg
    · rw [State.goTo_pc] at hg
      split at hg
      · cases hg
      · exact h.passed g hg
    · rw [State.goTo_pc] at hg
      split at hg
      · next heq => exact heq ▸ hne
      · exact absurd h0 (h.reported g hglen hne hgm hg)
  · have hcell : atomicCas s.finalNonce (l.nonce gid) = s.finalNonce := if_neg h0
    rw [hcell]
    exact h.goTo nofun nofun fun _ _ _ _ => h0

theorem Sound.kept (h : Sound l noncesLen s) (hs : step l noncesLen s gid = some s') : Sound l noncesLen s' := by
  obtain ⟨hlt, ⟨-, hout, rfl⟩ | ⟨-, hlen, rfl⟩ | ⟨hpc, hmeets, rfl⟩ | ⟨-, hmeets, rfl⟩ | ⟨hpc, rfl⟩⟩ := step_cases hs
  · refine h.goTo nofun nofun fun _ hlen _ _ => hout.resolve_left (Nat.not_le.mpr hlen)
  · exact h.goTo (fun _ => hlen) nofun nofun
  · exact h.goTo nofun (fun _ => ⟨h.hashing gid hpc, hmeets⟩) nofun
  · refine h.goTo nofun nofun fun _ _ _ hyes => ?_
    rw [hmeets] at hyes
    cases hyes
  · exact h.cas hlt hpc

/-- A finished launch reports a nonce exactly when one of its threads has a non-zero nonce that meets the
    target, threads that returned early included, and what it reports is such a thread's nonce. -/
theorem finalNonce_ne_zero_iff (h : Reachable (step l noncesLen) start s)
    (hdone : ∀ g, g < l.threads → s.pc g = .done) :
    (s.finalNonce ≠ 0 ↔ ∃ g, g < l.threads ∧ g < noncesLen ∧ l.nonce g ≠ 0 ∧ l.meets g = true) ∧
    (s.finalNonce ≠ 0 → ∃ g, g < l.threads ∧ g < noncesLen ∧ l.meets g = true ∧ l.nonce g = s.finalNonce) := by
  have hsound : Sound l noncesLen s := h.inv start_sound fun _ _ _ hs _ hstep => hs.kept hstep
  refine ⟨⟨fun hne => ?_, fun ⟨g, hlt, hlen, hne, hmeets⟩ => hsound.reported g hlen hne hmeets (hdone g hlt)⟩,
    hsound.stored⟩
  obtain ⟨g, hlt, hlen, hmeets, heq⟩ := hsound.stored hne
  exact ⟨g, hlt, hlen, heq ▸ hne, hmeets⟩

/-- Two threads meet the target; thread 1 stores first, thread 0 finds the cell taken. -/
theorem finalNonce_ne_zero_two : ∃ s, Reachable (step ⟨2, fun g => 5 + .ofNat g, fun _ => true⟩ 2) start s ∧
    s.finalNonce ≠ 0 ∧ s.finalNonce = 6 := by
  have hreach : Reachable (step ⟨2, fun g => 5 + .ofNat g, fun _ => true⟩ 2) start _ :=
    .of_run [0, 1, 1, 0, 1, 0] rfl
  have hiff := finalNonce_ne_zero_iff hreach (State.pc_of_lt_two rfl rfl)
  exact ⟨_, hreach, hiff.1.mpr ⟨1, by decide, by decide, by decide, rfl⟩, rfl⟩

end Steps
end Cuda

/-! ### OpenCL -/

namespace OpenCl

/-- A work-item that has a nonce to report. -/
def Finds (l : Assignment) (gid : Nat) : Prop := gid < l.threads ∧ l.nonce gid ≠ 0 ∧ l.meets gid = true

/-- Work-item 0 resets the cell, or a work-item stores the nonce 0. -/
def WritesZero (l : Assignment) (s : State Pc) (gid : Nat) : Prop :=
  (s.pc gid = .entry ∧ gid = 0) ∨ (s.pc gid = .store ∧ l.nonce gid = 0)

/-- No zero is written once every work-item that has a nonce to report is done. -/
def Keeps (l : Assignment) (s : State Pc) (gid : Nat) : Prop :=
  WritesZero l s gid → (∃ g, Finds l g) → ∃ g, Finds l g ∧ s.pc g ≠ .done

section Steps
variable {l : Assignment} {gid : Nat} {as : List Nat} {s s' : State Pc}

theorem step_cases (h : step l s gid = some s') : gid < l.threads ∧
    ((s.pc gid = .entry ∧ s' = { s.goTo gid .hash with finalNonce := if gid = 0 then 0 else s.finalNonce }) ∨
     (s.pc gid = .hash ∧ l.meets gid = true ∧ s' = s.goTo gid .test) ∨
     (s.pc gid = .hash ∧ l.meets gid = false ∧ s' = s.goTo gid .done) ∨
     (s.pc gid = .test ∧ s.finalNonce = 0 ∧ s' = s.goTo gid .store) ∨
     (s.pc gid = .test ∧ s.finalNonce ≠ 0 ∧ s' = s.goTo gid .done) ∨
     (s.pc gid = .store ∧ s' = { s.goTo gid .done with finalNonce := l.nonce gid })) := by
  unfold step at h
  split at h
  · next hlt =>
    refine ⟨hlt, ?_⟩
    cases hpc : s.pc gid with
    | entry =>
      simp only [hpc] at h
      cases h
      exact .inl ⟨rfl, rfl⟩
    | hash =>
      simp only [hpc] at h
      cases h
      cases hmeets : l.meets gid with
      | true => exact .inr (.inl ⟨rfl, rfl, rfl⟩)
      | false => exact .inr (.inr (.inl ⟨rfl, rfl, rfl⟩))
    | test =>
      simp only [hpc] at h
      cases h
      by_cases h0 : s.finalNonce = 0
      · exact .inr (.inr (.inr (.inl ⟨rfl, h0, by rw [if_pos h0]⟩)))
      · exact .inr (.inr (.inr (.inr (.inl ⟨rfl, h0, by rw [if_neg h0]⟩))))
    | store =>
      simp only [hpc] at h
      cases h
      exact .inr (.inr (.inr (.inr (.inr ⟨rfl, rfl⟩))))
    | done =>
      simp only [hpc] at h
      cases h
  · cases h

/-- Only work-items that pass get to store, so the cell holds 0 or the nonce of one that passed. -/
structure Sound (l : Assignment) (s : State Pc) : Prop where
  stored : s.finalNonce ≠ 0 → ∃ g, g < l.threads ∧ l.meets g = true ∧ l.nonce g = s.finalNonce
  passed : ∀ g, s.pc g = .test ∨ s.pc g = .store → l.meets g = true

theorem start_sound : Sound l start where
  stored h := absurd rfl h
  passed g h := by rcases h with h | h <;> cases h

theorem Sound.kept (h : Sound l s) (hs : step l s gid = some s') : Sound l s' := by
  have hpassed : ∀ pc, (pc = .test ∨ pc = .store → l.meets gid = true) →
      ∀ g, (s.goTo gid pc).pc g = .test ∨ (s.goTo gid pc).pc g = .store → l.meets g = true := by
    intro pc hnew g hg
    rw [State.goTo_pc] at hg
    split at hg
    · next heq => exact heq ▸ hnew hg
    · exact h.passed g hg
  obtain ⟨hlt, ⟨-, rfl⟩ | ⟨-, hmeets, rfl⟩ | ⟨-, -, rfl⟩ | ⟨hpc, -, rfl⟩ | ⟨-, -, rfl⟩ | ⟨hpc, rfl⟩⟩ := step_cases hs
  · refine ⟨fun hne => ?_, hpassed .hash (by simp)⟩
    dsimp only at hne ⊢
    split at hne
    · exact absurd rfl hne
    · next hg => rw [if_neg hg]; exact h.stored hne
  · exact ⟨h.stored, hpassed .test fun _ => hmeets⟩
  · exact ⟨h.stored, hpassed .done (by simp)⟩
  · exact ⟨h.stored, hpassed .store fun _ => h.passed gid (.inl hpc)⟩
  · exact ⟨h.stored, hpassed .done (by simp)⟩
  · exact ⟨fun _ => ⟨gid, hlt, h.passed gid (.inr hpc), rfl⟩, hpassed .done (by simp)⟩

/-! ### Steps that keep a nonce -/

/-- A nonce is reported, or still to come. -/
def Hopeful (l : Assignment) (s : State Pc) : Prop := s.finalNonce ≠ 0 ∨ ∃ g, Finds l g ∧ s.pc g ≠ .done

/-- A move of a work-item that is not done with it leaves the hope there was. -/
theorem Hopeful.goTo {pc : Pc} (h : Hopeful l s) (hpc : pc = .done → ¬Finds l gid) : Hopeful l (s.goTo gid pc) := by
  refine h.imp_right fun ⟨g, hg, hnot⟩ => ⟨g, hg, ?_⟩
  rw [State.goTo_pc]
  split
  · next heq => exact fun hdone => hpc hdone (heq ▸ hg)
  · exact hnot

theorem Hopeful.kept (h : Hopeful l s) (hfinds : ∃ g, Finds l g) (hkeeps : Keeps l s gid)
    (hs : step l s gid = some s') : Hopeful l s' := by
  obtain ⟨hlt, ⟨hpc, rfl⟩ | ⟨-, -, rfl⟩ | ⟨-, hmeets, rfl⟩ | ⟨-, -, rfl⟩ | ⟨-, hne, rfl⟩ | ⟨hpc, rfl⟩⟩ := step_cases hs
  · by_cases h0 : gid = 0
    · obtain ⟨g, hg, hnot⟩ := hkeeps (.inl ⟨hpc, h0⟩) hfinds
      refine .inr ⟨g, hg, ?_⟩
      dsimp only
      rw [State.goTo_pc]
      split
      · nofun
      · exact hnot
    · dsimp only
      rw [if_neg h0]
      exact h.goTo nofun
  · exact h.goTo nofun
  · refine h.goTo fun _ hf => ?_
    rw [hf.2.2] at hmeets
    cases hmeets
  · exact h.goTo nofun
  · exact .inl hne
  · by_cases h0 : l.nonce gid = 0
    · obtain ⟨g, hg, hnot⟩ := hkeeps (.inr ⟨hpc, h0⟩) hfinds
      refine .inr ⟨g, hg, ?_⟩
      dsimp only
      rw [State.goTo_pc]
      split
      · next heq => exact absurd h0 (heq ▸ hg.2.1)
      · exact hnot
    · exact .inl h0

/-! ### A step that loses it -/

/-- Nothing is reported, and nobody is left to report anything. -/
def Lost (l : Assignment) (s : State Pc) : Prop := s.finalNonce = 0 ∧ ∀ g, Finds l g → s.pc g = .done

/-- Whoever moves was not done, so those that are done stay so. -/
theorem goTo_done {pc : Pc} (hall : ∀ g, Finds l g → s.pc g = .done) (hpc : s.pc gid ≠ .done) :
    ∀ g, Finds l g → (s.goTo gid pc).pc g = .done := by
  intro g hg
  have hne : g ≠ gid := by
    rintro rfl
    exact hpc (hall g hg)
  rw [State.goTo_pc, if_neg hne]
  exact hall g hg

theorem lost_of_not_keeps (hs : step l s gid = some s') (hnot : ¬Keeps l s gid) : Lost l s' := by
  simp only [Keeps, Classical.not_imp, not_exists, not_and, not_not] at hnot
  obtain ⟨hzero, -, hall⟩ := hnot
  rcases hzero with ⟨hpc, h0⟩ | ⟨hpc, h0⟩ <;>
    obtain ⟨-, ⟨hpc', rfl⟩ | ⟨hpc', -⟩ | ⟨hpc', -⟩ | ⟨hpc', -⟩ | ⟨hpc', -⟩ | ⟨hpc', rfl⟩⟩ := step_cases hs <;>
    rw [hpc] at hpc' <;> cases hpc'
  · exact ⟨if_pos h0, goTo_done hall (by rw [hpc]; nofun)⟩
  · exact ⟨h0, goTo_done hall (by rw [hpc]; nofun)⟩

theorem Lost.kept (h : Lost l s) (hsound : Sound l s) (hs : step l s gid = some s') : Lost l s' := by
  obtain ⟨hcell, hall⟩ := h
  obtain ⟨hlt, ⟨hpc, rfl⟩ | ⟨hpc, -, rfl⟩ | ⟨hpc, -, rfl⟩ | ⟨hpc, -, rfl⟩ | ⟨hpc, hne, rfl⟩ | ⟨hpc, rfl⟩⟩ := step_cases hs
  · refine ⟨?_, goTo_done hall (by rw [hpc]; nofun)⟩
    dsimp only
    split
    · rfl
    · exact hcell
  · exact ⟨hcell, goTo_done hall (by rw [hpc]; nofun)⟩
  · exact ⟨hcell, goTo_done hall (by rw [hpc]; nofun)⟩
  · exact ⟨hcell, goTo_done hall (by rw [hpc]; nofun)⟩
  · exact absurd hcell hne
  · -- A work-item that stores now passed, and is not one of those that have a nonce to report.
    refine ⟨?_, goTo_done hall (by rw [hpc]; nofun)⟩
    by_contra hne
    have hdone := hall gid ⟨hlt, hne, hsound.passed gid (.inr hpc)⟩
    rw [hpc] at hdone
    cases hdone

theorem Lost.of_run (h : Lost l s) (hsound : Sound l s) (hrun : run (step l) s as = some s') : Lost l s' := by
  induction as generalizing s with
  | nil =>
    cases hrun
    exact h
  | cons gid as ih =>
    obtain ⟨u, hu, hrest⟩ := run_cons_iff.mp hrun
    exact ih (h.kept hsound hu) (hsound.kept hu) hrest

theorem along_keeps_of_stored (hsound : Sound l s) (hrun : run (step l) s as = some s') (hne : s'.finalNonce ≠ 0) :
    Along (step l) (Keeps l) s as := by
  induction as generalizing s with
  | nil => trivial
  | cons gid as ih =>
    obtain ⟨u, hu, hrest⟩ := run_cons_iff.mp hrun
    refine .cons ?_ hu (ih (hsound.kept hu) hrest)
    by_contra hnot
    exact hne ((lost_of_not_keeps hu hnot).of_run (hsound.kept hu) hrest).1

/-- A nonce that was found is reported exactly by the runs in which no zero is written, by the reset or for
    the nonce 0, once every work-item that has a nonce to report is done. -/
theorem found_reported_iff (hrun : run (step l) start as = some s) (hdone : ∀ g, g < l.threads → s.pc g = .done) :
    ((∃ g, Finds l g) →
      s.finalNonce ≠ 0 ∧ ∃ g, g < l.threads ∧ l.meets g = true ∧ l.nonce g = s.finalNonce) ↔
      Along (step l) (Keeps l) start as := by
  constructor
  · intro h
    by_cases hfinds : ∃ g, Finds l g
    · exact along_keeps_of_stored start_sound hrun (h hfinds).1
    · exact along_true.imp fun _ _ _ _ hyes => absurd hyes hfinds
  · intro h hfinds
    have hend : Sound l s ∧ Hopeful l s := by
      refine (ReachableBy.init.run hrun h).inv (I := fun s => Sound l s ∧ Hopeful l s) ⟨start_sound, ?_⟩
        fun s t gid hI hkeeps hs => ⟨hI.1.kept hs, hI.2.kept hfinds hkeeps hs⟩
      obtain ⟨g, hg⟩ := hfinds
      exact .inr ⟨g, hg, nofun⟩
    have hne : s.finalNonce ≠ 0 := hend.2.resolve_right fun ⟨g, hg, hnot⟩ => hnot (hdone g hg.1)
    exact ⟨hne, hend.1.stored hne⟩

/-- Work-item 0 resets the cell first, then work-item 1 stores its nonce. -/
theorem found_reported_reset_first : ∃ s, run (step ⟨2, fun g => .ofNat g, fun g => g = 1⟩) start
    [0, 1, 1, 1, 1, 0] = some s ∧ Along (step ⟨2, fun g => .ofNat g, fun g => g = 1⟩)
      (Keeps ⟨2, fun g => .ofNat g, fun g => g = 1⟩) start [0, 1, 1, 1, 1, 0] := by
  refine ⟨_, rfl, (found_reported_iff rfl (State.pc_of_lt_two rfl rfl)).mp fun _ => ?_⟩
  exact ⟨by decide, 1, by decide, rfl, rfl⟩

/-- Work-item 1 stores its nonce, and work-item 0, in another group, then resets the cell: the host sees no
    result. -/
theorem found_lost : ¬∀ (l : Assignment) as s, run (step l) start as = some s →
    (∀ g, g < l.threads → s.pc g = .done) → (∃ g, Finds l g) →
      s.finalNonce ≠ 0 ∧ ∃ g, g < l.threads ∧ l.meets g = true ∧ l.nonce g = s.finalNonce := by
  intro h
  exact (h ⟨2, fun g => .ofNat g, fun g => g = 1⟩ [1, 1, 1, 1, 0, 0] _ rfl (State.pc_of_lt_two rfl rfl)
    ⟨1, by decide, by decide, rfl⟩).1 rfl

end Steps
end OpenCl
end CryptixMiner.Launch
