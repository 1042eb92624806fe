import CryptixMiner.Client.ShareLock

/-! When the users of `shares_pending` cannot meet: only when at most one of them uses it at all. -/

namespace CryptixMiner.Stratum.LockUses
open StepSystem

variable {uses : LockUses}

theorem sections_submission : uses.sections .submission ≠ [] ↔ uses.shares ≠ 0 := by
  simp [sections]

theorem sections_handler : uses.sections .handler ≠ [] ↔ uses.replies ≠ [] := by
  simp [sections]

theorem sections_logger : uses.sections .logger ≠ [] ↔ uses.ticks ≠ 0 := by
  simp [sections]

/-- The lock is free in every interleaving exactly when no two of the three tasks come to it. -/
theorem lockAlwaysFree_iff (uses : LockUses) :
    uses.LockAlwaysFree ↔
      ¬(uses.shares ≠ 0 ∧ uses.replies ≠ []) ∧ ¬(uses.shares ≠ 0 ∧ uses.ticks ≠ 0) ∧
        ¬(uses.replies ≠ [] ∧ uses.ticks ≠ 0) := by
  rw [LockAlwaysFree, TryLock.neverFails_iff, ← sections_submission, ← sections_handler, ← sections_logger]
  constructor
  · intro h
    refine ⟨fun ⟨h₁, h₂⟩ => ?_, fun ⟨h₁, h₂⟩ => ?_, fun ⟨h₁, h₂⟩ => ?_⟩
    · exact absurd (h _ _ h₁ h₂) (by decide)
    · exact absurd (h _ _ h₁ h₂) (by decide)
    · exact absurd (h _ _ h₁ h₂) (by decide)
  · rintro ⟨hsh, hsl, hhl⟩ t u ht hu
    cases t <;> cases u
    case submission.submission | handler.handler | logger.logger => rfl
    case submission.handler => exact absurd ⟨ht, hu⟩ hsh
    case submission.logger => exact absurd ⟨ht, hu⟩ hsl
    case handler.submission => exact absurd ⟨hu, ht⟩ hsh
    case handler.logger => exact absurd ⟨ht, hu⟩ hhl
    case logger.submission => exact absurd ⟨hu, ht⟩ hsl
    case logger.handler => exact absurd ⟨hu, ht⟩ hhl

/-- The logger writes its line while the reply to a share comes in. -/
theorem not_lockAlwaysFree_reply :
    (∃ s, run TryLock.step (TryLock.start (sections ⟨1, [.accepted], 1⟩)) [.submission, .submission, .submission,
      .logger, .handler] = some s ∧ s.failed = true) ∧ ¬LockAlwaysFree ⟨1, [.accepted], 1⟩ := by
  have hrun : ∃ s, run TryLock.step (TryLock.start (sections ⟨1, [.accepted], 1⟩)) [.submission, .submission,
      .submission, .logger, .handler] = some s ∧ s.failed = true := ⟨_, rfl, rfl⟩
  refine ⟨hrun, fun h => ?_⟩
  obtain ⟨s, hs, hfailed⟩ := hrun
  rw [h s (Reachable.of_run _ hs)] at hfailed
  cases hfailed

end CryptixMiner.Stratum.LockUses
