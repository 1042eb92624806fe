import CryptixMiner.Miner.Worker
import CryptixMiner.Theorems.WatchFreshness

/-! Polls of the GPU worker. Of the ways back to the head of the loop only the one without a nonce polls, and
    the one with a full block leaves no job; the others launch again on the job they had. -/

namespace CryptixMiner.Miner
open StepSystem

/-- The channel was polled since the last launch that did not panic. -/
def PolledSince : List GpuEvent → Prop
  | [] => True
  | .polled :: _ => True
  | .panicked :: log => PolledSince log
  | .launched .. :: _ => False

/-- Between any two launches that did not panic there is a poll. -/
def PolledBetween : List GpuEvent → Prop
  | [] => True
  | .launched .. :: log => PolledSince log ∧ PolledBetween log
  | .polled :: log | .panicked :: log => PolledBetween log

/-- The last launch that did not panic found no nonce, or solved a full block. -/
def EndedPolling : List GpuEvent → Prop
  | [] => True
  | .launched _ _ full result :: _ => result = .noNonce ∨ (result = .share ∧ full = true)
  | .polled :: log | .panicked :: log => EndedPolling log

/-- Every launch that did not panic, and is followed by another, found no nonce or solved a full block. -/
def FollowedPolling : List GpuEvent → Prop
  | [] => True
  | .launched .. :: log => EndedPolling log ∧ FollowedPolling log
  | .polled :: log | .panicked :: log => FollowedPolling log

/-- What was published when the last launch that did not panic started. -/
def lastVersion : List GpuEvent → Nat
  | [] => 0
  | .launched _ version _ _ :: _ => version
  | .polled :: log | .panicked :: log => lastVersion log

/-- No launch is on a job older than what was published when the launch before it started. -/
def Fresh : List GpuEvent → Prop
  | [] => True
  | .launched jobVersion _ _ _ :: log => lastVersion log ≤ jobVersion ∧ Fresh log
  | .polled :: log | .panicked :: log => Fresh log

section Run
variable {Block : Type} {w w' : GpuWorker Block} {a : GpuAction Block} {s : State Block}

/-! ### One launch -/

structure SameObserved (w w' : GpuWorker Block) : Prop where
  channel : w'.channel = w.channel
  lastObserved : w'.lastObserved = w.lastObserved
  loaded : w'.loaded = w.loaded
  jobVersion : w'.jobVersion = w.jobVersion

theorem GpuWorker.useFallback_eq (w : GpuWorker Block) (builds : Bool) (otherwise : GpuPc) :
    ∃ fallback pc, (pc = .head ∨ pc = .stopped ∨ pc = otherwise) ∧
      w.useFallback builds otherwise = { w with fallback := fallback, pc := pc } := by
  unfold useFallback
  split
  · cases builds with
    | true => exact ⟨false, .head, .inl rfl, rfl⟩
    | false => exact ⟨false, .stopped, .inr (.inl rfl), rfl⟩
  · exact ⟨w.fallback, otherwise, .inr (.inr rfl), rfl⟩

/-- A launch panics, ends with no nonce, with a share, or in a way that goes on with the same job if at all. -/
theorem GpuWorker.launch_cases (w : GpuWorker Block) (s : State Block) (result : RunResult) (builds : Bool) :
    SameObserved w (w.launch s result builds) ∧
    (((w.launch s result builds).log = .panicked :: w.log ∧ (w.launch s result builds).state = w.state ∧
        ((w.launch s result builds).pc = .head ∨ (w.launch s result builds).pc = .stopped)) ∨
     ((w.launch s result builds).log = .launched w.jobVersion w.channel.version s.block.isFull result :: w.log ∧
        ((result = .noNonce ∧ (w.launch s result builds).pc = .poll ∧
            (w.launch s result builds).state = w.state) ∨
         (result = .share ∧ (w.launch s result builds).pc = .head ∧
            (w.launch s result builds).state = if s.block.isFull then none else some s) ∨
         (result ≠ .noNonce ∧ result ≠ .share ∧ (w.launch s result builds).state = w.state ∧
            ((w.launch s result builds).pc = .head ∨ (w.launch s result builds).pc = .stopped))))) := by
  cases result with
  | panicked =>
    obtain ⟨fallback, pc, hpc, heq⟩ :=
      useFallback_eq { w with log := .panicked :: w.log } builds .stopped
    rw [show w.launch s .panicked builds = _ from heq]
    exact ⟨⟨rfl, rfl, rfl, rfl⟩, .inl ⟨rfl, rfl, hpc.imp_right (Or.elim · id id)⟩⟩
  | syncError =>
    obtain ⟨fallback, pc, hpc, heq⟩ := useFallback_eq
      { w with log := .launched w.jobVersion w.channel.version s.block.isFull .syncError :: w.log } builds .head
    rw [show w.launch s .syncError builds = _ from heq]
    refine ⟨⟨rfl, rfl, rfl, rfl⟩, .inr ⟨rfl, .inr (.inr ⟨nofun, nofun, rfl, ?_⟩)⟩⟩
    rcases hpc with hpc | hpc | hpc
    · exact .inl hpc
    · exact .inr hpc
    · exact .inl hpc
  | outputError =>
    obtain ⟨fallback, pc, hpc, heq⟩ := useFallback_eq
      { w with log := .launched w.jobVersion w.channel.version s.block.isFull .outputError :: w.log } builds .stopped
    rw [show w.launch s .outputError builds = _ from heq]
    exact ⟨⟨rfl, rfl, rfl, rfl⟩, .inr ⟨rfl, .inr (.inr ⟨nofun, nofun, rfl, hpc.imp_right (Or.elim · id id)⟩)⟩⟩
  | noNonce => exact ⟨⟨rfl, rfl, rfl, rfl⟩, .inr ⟨rfl, .inl ⟨rfl, rfl, rfl⟩⟩⟩
  | share => exact ⟨⟨rfl, rfl, rfl, rfl⟩, .inr ⟨rfl, .inr (.inl ⟨rfl, rfl, rfl⟩)⟩⟩
  | wrongNonce =>
    exact ⟨⟨rfl, rfl, rfl, rfl⟩, .inr ⟨rfl, .inr (.inr ⟨nofun, nofun, rfl, .inr rfl⟩)⟩⟩

theorem GpuWorker.step_cases (hs : w.step a = some w') :
    (∃ cmd, w' = { w with channel := w.channel.replaceValue cmd }) ∨
    w' = { w with senderAlive := false } ∨
    w' = { w with pc := .stopped } ∨
    ((w.pc = .poll ∨ (w.pc = .head ∧ w.state = none)) ∧ w' = w.load) ∨
    (w.pc = .poll ∧ w.lastObserved = w.channel.id ∧ w' = { w with pc := .head, log := .polled :: w.log }) ∨
    (w.pc = .clone ∧ w' = w.receive) ∨
    (∃ s result builds, w.pc = .head ∧ w.state = some s ∧ w' = w.launch s result builds) := by
  cases a with
  | publish cmd =>
    cases hs
    exact .inl ⟨cmd, rfl⟩
  | dropSender =>
    cases hs
    exact .inr (.inl rfl)
  | worker result builds =>
    simp only [GpuWorker.step] at hs
    split at hs
    · next hpc hstate =>
      cases hs
      split
      · exact .inr (.inr (.inr (.inl ⟨.inr ⟨hpc, hstate⟩, rfl⟩)))
      · exact .inr (.inr (.inl rfl))
    · next s hpc hstate =>
      cases hs
      exact .inr (.inr (.inr (.inr (.inr (.inr ⟨s, result, builds, hpc, hstate, rfl⟩)))))
    · next hpc =>
      cases hs
      exact .inr (.inr (.inr (.inr (.inr (.inl ⟨hpc, rfl⟩)))))
    · next hpc =>
      split at hs
      · cases hs
        split
        · next heq => exact .inr (.inr (.inr (.inr (.inl ⟨hpc, heq, rfl⟩))))
        · exact .inr (.inr (.inr (.inl ⟨.inl hpc, rfl⟩)))
      · cases hs
        exact .inr (.inr (.inl rfl))
    · cases hs

/-! ### Polls -/

/-- Where the loop is, and what its last launch came to. -/
structure GpuWorker.Tracked (w : GpuWorker Block) : Prop where
  ended : PolledSince w.log → EndedPolling w.log
  polled : EndedPolling w.log → w.pc = .head → w.state ≠ none → PolledSince w.log
  waiting : w.pc = .head → w.state = none → EndedPolling w.log
  cloning : w.pc = .clone → PolledSince w.log
  polling : w.pc = .poll → EndedPolling w.log
  iff : PolledBetween w.log ↔ FollowedPolling w.log

theorem GpuWorker.start_tracked (init : Command Block) (fallback : Bool) : (start init fallback).Tracked where
  ended _ := trivial
  polled _ _ _ := trivial
  waiting _ _ := trivial
  cloning h := nomatch h
  polling h := nomatch h
  iff := Iff.rfl

theorem GpuWorker.Tracked.load (h : w.Tracked) (hended : EndedPolling w.log) : w.load.Tracked where
  ended _ := hended
  polled _ hpc := nomatch hpc
  waiting hpc := nomatch hpc
  cloning _ := trivial
  polling hpc := nomatch hpc
  iff := h.iff

theorem GpuWorker.Tracked.receive (h : w.Tracked) (hpc : w.pc = .clone) : w.receive.Tracked := by
  have hpolled := h.cloning hpc
  unfold GpuWorker.receive
  split
  · exact ⟨h.ended, fun _ _ _ => hpolled, nofun, nofun, nofun, h.iff⟩
  · exact ⟨h.ended, nofun, nofun, nofun, nofun, h.iff⟩
  · exact ⟨h.ended, fun _ _ _ => hpolled, fun _ _ => h.ended hpolled, nofun, nofun, h.iff⟩

/-- A launch on the job at hand: the worker polled before it exactly when the launch before ended so. -/
theorem GpuWorker.Tracked.launch (h : w.Tracked) (hpc : w.pc = .head) (hstate : w.state = some s)
    (result : RunResult) (builds : Bool) : (w.launch s result builds).Tracked := by
  have hboth : PolledSince w.log ↔ EndedPolling w.log :=
    ⟨h.ended, fun hended => h.polled hended hpc (by rw [hstate]; nofun)⟩
  obtain ⟨-, ⟨hlog, hstate', hpc'⟩ | ⟨hlog, hcase⟩⟩ := w.launch_cases s result builds
  · -- A panic leaves what the last launch came to.
    refine ⟨fun hp => ?_, fun he _ _ => ?_, fun _ hnone => ?_, fun hc => ?_, fun hp => ?_, ?_⟩
    · rw [hlog] at hp ⊢
      exact h.ended hp
    · rw [hlog] at he ⊢
      exact hboth.mpr he
    · rw [hstate', hstate] at hnone
      cases hnone
    · rcases hpc' with hpc' | hpc' <;> rw [hpc'] at hc <;> cases hc
    · rcases hpc' with hpc' | hpc' <;> rw [hpc'] at hp <;> cases hp
    · rw [hlog]
      exact h.iff
  · have hiff : PolledBetween (w.launch s result builds).log ↔ FollowedPolling (w.launch s result builds).log := by
      rw [hlog]
      exact and_congr hboth h.iff
    have hnot : ¬PolledSince (w.launch s result builds).log := by
      rw [hlog]
      exact id
    refine ⟨fun hp => absurd hp hnot, fun he hhead hsome => ?_, fun hhead hnone => ?_, fun hc => ?_, fun hp => ?_,
      hiff⟩
    · rw [hlog] at he
      rcases hcase with ⟨-, hpoll, -⟩ | ⟨hshare, -, hst⟩ | ⟨hno, hns, -, -⟩
      · rw [hpoll] at hhead
        cases hhead
      · rcases he with he | ⟨-, hfull⟩
        · rw [hshare] at he
          cases he
        · rw [hst, hfull] at hsome
          exact absurd rfl hsome
      · exact (he.elim hno fun he => hns he.1).elim
    · rw [hlog]
      rcases hcase with ⟨-, hpoll, -⟩ | ⟨hshare, -, hst⟩ | ⟨-, -, hst, -⟩
      · rw [hpoll] at hhead
        cases hhead
      · refine .inr ⟨hshare, ?_⟩
        cases hfull : s.block.isFull with
        | true => rfl
        | false =>
          rw [hst, hfull] at hnone
          cases hnone
      · rw [hst, hstate] at hnone
        cases hnone
    · rcases hcase with ⟨-, hpc', -⟩ | ⟨-, hpc', -⟩ | ⟨-, -, -, hpc' | hpc'⟩ <;> rw [hpc'] at hc <;> cases hc
    · rw [hlog]
      rcases hcase with ⟨hno, -⟩ | ⟨-, hpc', -⟩ | ⟨-, -, -, hpc' | hpc'⟩
      · exact .inl hno
      all_goals
        rw [hpc'] at hp
        cases hp

theorem GpuWorker.Tracked.kept (h : w.Tracked) (hs : w.step a = some w') : w'.Tracked := by
  rcases step_cases hs with ⟨_, rfl⟩ | rfl | rfl | ⟨hpc | ⟨hpc, hstate⟩, rfl⟩ | ⟨hpc, -, rfl⟩ | ⟨hpc, rfl⟩ |
    ⟨s, result, builds, hpc, hstate, rfl⟩
  · exact ⟨h.ended, h.polled, h.waiting, h.cloning, h.polling, h.iff⟩
  · exact ⟨h.ended, h.polled, h.waiting, h.cloning, h.polling, h.iff⟩
  · exact ⟨h.ended, nofun, nofun, nofun, nofun, h.iff⟩
  · exact h.load (h.polling hpc)
  · exact h.load (h.waiting hpc hstate)
  · exact ⟨fun _ => h.polling hpc, fun _ _ _ => trivial, fun _ _ => h.polling hpc, nofun, nofun, h.iff⟩
  · exact h.receive hpc
  · exact h.launch hpc hstate result builds

/-! ### What the worker has seen -/

/-- The versions the worker has loaded and works on. -/
structure GpuWorker.Observed (w : GpuWorker Block) : Prop where
  numbered : w.channel.Numbered
  lastObserved_eq : w.lastObserved = UInt64.ofNat w.loaded
  loaded_le : w.loaded ≤ w.channel.version
  launched_le : lastVersion w.log ≤ w.channel.version
  polled : PolledSince w.log → lastVersion w.log ≤ w.loaded
  loaded_pos : w.state ≠ none ∨ w.pc = .clone → 1 ≤ w.loaded
  loaded_le_job : w.state ≠ none → w.pc = .head ∨ w.pc = .poll → w.loaded ≤ w.jobVersion
  polling : w.pc = .poll → w.state ≠ none
  fresh : PolledBetween w.log → Fresh w.log

theorem GpuWorker.start_observed (init : Command Block) (fallback : Bool) : (start init fallback).Observed where
  numbered := ⟨Nat.le_refl 1, rfl⟩
  lastObserved_eq := rfl
  loaded_le := Nat.zero_le 1
  launched_le := Nat.zero_le 1
  polled _ := Nat.le_refl 0
  loaded_pos h := h.elim (absurd rfl ·) nofun
  loaded_le_job h := absurd rfl h
  polling h := nomatch h
  fresh _ := trivial

theorem GpuWorker.Observed.publish (h : w.Observed) (cmd : Command Block) :
    ({ w with channel := w.channel.replaceValue cmd } : GpuWorker Block).Observed :=
  { h with
    numbered := h.numbered.replaceValue cmd
    loaded_le := Nat.le_succ_of_le h.loaded_le
    launched_le := Nat.le_succ_of_le h.launched_le }

theorem GpuWorker.Observed.stop (h : w.Observed) : ({ w with pc := .stopped } : GpuWorker Block).Observed :=
  { h with
    loaded_pos := fun hor => h.loaded_pos (hor.imp_right nofun)
    loaded_le_job := fun _ hor => by rcases hor with hor | hor <;> cases hor
    polling := nofun }

theorem GpuWorker.Observed.load (h : w.Observed) : w.load.Observed where
  numbered := h.numbered
  lastObserved_eq := h.numbered.id_eq
  loaded_le := Nat.le_refl _
  launched_le := h.launched_le
  polled _ := h.launched_le
  loaded_pos _ := h.numbered.version_pos
  loaded_le_job _ hor := by rcases hor with hor | hor <;> cases hor
  polling hpc := nomatch hpc
  fresh := h.fresh

theorem GpuWorker.Observed.receive (h : w.Observed) (hpc : w.pc = .clone) : w.receive.Observed := by
  unfold GpuWorker.receive
  split
  · exact { h with
      loaded_pos := fun _ => h.loaded_pos (.inr hpc)
      loaded_le_job := fun _ _ => h.loaded_le
      polling := nofun }
  · exact h.stop
  · exact { h with
      loaded_pos := fun _ => h.loaded_pos (.inr hpc)
      loaded_le_job := fun hne => absurd rfl hne
      polling := nofun }

/-- A poll that finds the id unchanged has found the version it loaded last. -/
theorem GpuWorker.Observed.unchanged (h : w.Observed) (hpc : w.pc = .poll) (heq : w.lastObserved = w.channel.id)
    (hle : w.channel.version ≤ 2 ^ 64) :
    ({ w with pc := .head, log := .polled :: w.log } : GpuWorker Block).Observed := by
  have hstate := h.polling hpc
  have hloaded : w.loaded = w.channel.version :=
    Watch.eq_of_ofNat_eq (h.lastObserved_eq ▸ h.numbered.id_eq ▸ heq) h.loaded_le hle
      (.inl (h.loaded_pos (.inl hstate)))
  exact { h with
    polled := fun _ => hloaded ▸ h.launched_le
    loaded_pos := fun _ => h.loaded_pos (.inl hstate)
    loaded_le_job := fun _ _ => h.loaded_le_job hstate (.inr hpc)
    polling := nofun }

theorem GpuWorker.Observed.launch (h : w.Observed) (hpc : w.pc = .head) (hstate : w.state = some s)
    (result : RunResult) (builds : Bool) : (w.launch s result builds).Observed := by
  obtain ⟨hsame, hcase⟩ := w.launch_cases s result builds
  have hsome : w.state ≠ none := by rw [hstate]; nofun
  have hpos := h.loaded_pos (.inl hsome)
  have hjob := h.loaded_le_job hsome (.inl hpc)
  refine ⟨hsame.channel ▸ h.numbered, hsame.lastObserved ▸ hsame.loaded ▸ h.lastObserved_eq,
    hsame.loaded ▸ hsame.channel ▸ h.loaded_le, ?_, ?_, fun _ => hsame.loaded ▸ hpos,
    fun _ _ => hsame.loaded ▸ hsame.jobVersion ▸ hjob, ?_, ?_⟩
  · rw [hsame.channel]
    rcases hcase with ⟨hlog, -⟩ | ⟨hlog, -⟩ <;> rw [hlog]
    · exact h.launched_le
    · exact Nat.le_refl _
  · intro hp
    rw [hsame.loaded]
    rcases hcase with ⟨hlog, -⟩ | ⟨hlog, -⟩ <;> rw [hlog] at hp ⊢
    · exact h.polled hp
    · exact hp.elim
  · intro hpoll
    rcases hcase with ⟨-, -, hpc' | hpc'⟩ | ⟨-, ⟨-, -, hst⟩ | ⟨-, hpc', -⟩ | ⟨-, -, hst, -⟩⟩
    · rw [hpc'] at hpoll
      cases hpoll
    · rw [hpc'] at hpoll
      cases hpoll
    · rw [hst]
      exact hsome
    · rw [hpc'] at hpoll
      cases hpoll
    · rw [hst]
      exact hsome
  · intro hp
    rcases hcase with ⟨hlog, -⟩ | ⟨hlog, -⟩ <;> rw [hlog] at hp ⊢
    · exact h.fresh hp
    · exact ⟨Nat.le_trans (h.polled hp.1) hjob, h.fresh hp.2⟩

theorem GpuWorker.Observed.kept (h : w.Observed) (hle : w.channel.version ≤ 2 ^ 64) (hs : w.step a = some w') :
    w'.Observed := by
  rcases step_cases hs with ⟨cmd, rfl⟩ | rfl | rfl | ⟨-, rfl⟩ | ⟨hpc, heq, rfl⟩ | ⟨hpc, rfl⟩ |
    ⟨s, result, builds, hpc, hstate, rfl⟩
  · exact h.publish cmd
  · exact { h with }
  · exact h.stop
  · exact h.load
  · exact h.unchanged hpc heq hle
  · exact h.receive hpc
  · exact h.launch hpc hstate result builds

theorem GpuWorker.version_le (hs : w.step a = some w') : w.channel.version ≤ w'.channel.version := by
  rcases step_cases hs with ⟨cmd, rfl⟩ | rfl | rfl | ⟨-, rfl⟩ | ⟨-, -, rfl⟩ | ⟨-, rfl⟩ |
    ⟨s, result, builds, -, -, rfl⟩
  · exact Nat.le_succ _
  · exact Nat.le_refl _
  · exact Nat.le_refl _
  · exact Nat.le_refl _
  · exact Nat.le_refl _
  · unfold receive
    split <;> exact Nat.le_refl _
  · rw [(w.launch_cases s result builds).1.channel]

/-- The worker polls between its launches exactly in the runs in which every launch that is followed by
    another found no nonce or solved a full block. Then no launch is on a job that was superseded when the
    launch before it started, as long as fewer than 2^64 values were published. -/
theorem polledBetween_iff {init : Command Block} {fallback : Bool}
    (h : Reachable GpuWorker.step (.start init fallback) w) :
    (PolledBetween w.log ↔ FollowedPolling w.log) ∧
    (w.channel.version ≤ 2 ^ 64 → PolledBetween w.log → Fresh w.log) := by
  have hinv : w.Tracked ∧ (w.channel.version ≤ 2 ^ 64 → w.Observed) := by
    refine h.inv (I := fun w => w.Tracked ∧ (w.channel.version ≤ 2 ^ 64 → w.Observed))
      ⟨GpuWorker.start_tracked init fallback, fun _ => GpuWorker.start_observed init fallback⟩
      fun s t a hI _ hs => ⟨hI.1.kept hs, fun hle => ?_⟩
    have hle' := Nat.le_trans (GpuWorker.version_le hs) hle
    exact (hI.2 hle').kept hle' hs
  exact ⟨hinv.1.iff, fun hle => (hinv.2 hle).fresh⟩

/-- Two launches without a nonce, and a poll after each. -/
theorem polledBetween_noNonce : ∃ w : GpuWorker Unit,
    w.log = [.launched 2 3 false .noNonce, .polled, .launched 2 2 false .noNonce, .polled] ∧
    PolledBetween w.log ∧ Fresh w.log := by
  have hreach : Reachable GpuWorker.step (.start none false) _ :=
    .of_run [.publish (some (.job (poolJob 0xff 0x100))), .worker .noNonce true, .worker .noNonce true,
      .worker .noNonce true, .worker .noNonce true, .publish none, .worker .noNonce true] rfl
  have hiff := polledBetween_iff hreach
  have hpolled := hiff.1.mpr ⟨.inl rfl, trivial, trivial⟩
  exact ⟨_, rfl, hpolled, hiff.2 (by decide) hpolled⟩

/-- A share of a pool job: the worker launches again without a poll, on a job that `Close` superseded before
    the first of the two launches. -/
theorem launched_after_close : ∃ w : GpuWorker Unit, Reachable GpuWorker.step (.start none false) w ∧
    w.log = [.launched 2 3 false .noNonce, .launched 2 3 false .share, .polled] ∧
    (∃ as, run GpuWorker.step (.start none false)
      (.publish (some (.job (poolJob 0xff 0x100))) :: .worker .share true :: .worker .share true ::
        .publish (some .close) :: as) = some w) ∧
    ¬PolledBetween w.log ∧ ¬Fresh w.log :=
  have hrun : run GpuWorker.step (.start none false) [.publish (some (.job (poolJob 0xff 0x100))),
      .worker .share true, .worker .share true, .publish (some .close), .worker .share true,
      .worker .noNonce true] = some _ := rfl
  ⟨_, .of_run _ hrun, rfl, ⟨_, hrun⟩, fun h => h.1, fun h => absurd h.1 (by decide)⟩

end Run
end CryptixMiner.Miner
