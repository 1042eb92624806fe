import CryptixMiner.Lib.StepSystem
import Mathlib.Logic.Function.Basic

/-! Tasks that share a lock and never wait for it. A task takes the lock with `try_lock().unwrap()`, works
    while it holds the guard, and lets it go; where the lock is taken already, the task panics. -/

namespace TryLock
open StepSystem

inductive Instr (ι : Type*) where
  | tryLock
  | work (w : ι)
  | unlock

structure State (T ι : Type*) where
  locked : Bool
  code : T → List (Instr ι)
  /-- Some `try_lock` found the lock taken. -/
  failed : Bool

variable {T ι : Type*} [DecidableEq T]

def step (s : State T ι) (t : T) : Option (State T ι) :=
  match s.code t with
  | [] => none
  | .tryLock :: rest =>
    if s.locked then some { s with code := Function.update s.code t [], failed := true }
    else some { s with locked := true, code := Function.update s.code t rest }
  | .work _ :: rest => some { s with code := Function.update s.code t rest }
  | .unlock :: rest => some { s with locked := false, code := Function.update s.code t rest }

/-- The work done under each guard, one guard after the other. -/
def program (sections : List (List ι)) : List (Instr ι) :=
  sections.flatMap fun body => .tryLock :: (body.map .work ++ [.unlock])

def start (sections : T → List (List ι)) : State T ι where
  locked := false
  code t := program (sections t)
  failed := false

/-- No interleaving of the tasks makes a `try_lock` fail. -/
def NeverFails (sections : T → List (List ι)) : Prop :=
  ∀ s, Reachable step (start sections) s → s.failed = false

/-! ### One task alone -/

/-- What is left of a program whose guard is held or not. -/
def Bracketed : Bool → List (Instr ι) → Prop
  | held, [] => held = false
  | held, .tryLock :: rest => held = false ∧ Bracketed true rest
  | held, .work _ :: rest => Bracketed held rest
  | held, .unlock :: rest => held = true ∧ Bracketed false rest

theorem bracketed_body {body : List ι} {rest : List (Instr ι)} (h : Bracketed false rest) :
    Bracketed true (body.map .work ++ .unlock :: rest) := by
  induction body with
  | nil => exact ⟨rfl, h⟩
  | cons w body ih => exact ih

theorem bracketed_program (sections : List (List ι)) : Bracketed false (program sections) := by
  induction sections with
  | nil => rfl
  | cons body sections ih =>
    have hsplit : program (body :: sections) = .tryLock :: (body.map .work ++ .unlock :: program sections) := by
      simp [program]
    rw [hsplit]
    exact ⟨rfl, bracketed_body ih⟩

omit [DecidableEq T] in
theorem program_eq_nil {sections : List (List ι)} : program sections = [] ↔ sections = [] := by
  cases sections <;> simp [program]

/-- Task `t` is the only one with code left, and it holds the lock when anyone does. -/
structure Alone (t : T) (s : State T ι) : Prop where
  others : ∀ u, u ≠ t → s.code u = []
  bracketed : Bracketed s.locked (s.code t)
  failed : s.failed = false

theorem Alone.kept {t u : T} {s s' : State T ι} (h : Alone t s) (hs : step s u = some s') : Alone t s' := by
  have hu : u = t := by
    by_contra hne
    rw [step, h.others u hne] at hs
    cases hs
  subst hu
  have hothers : ∀ (rest : List (Instr ι)) v, v ≠ u → Function.update s.code u rest v = [] := fun rest v hv => by
    rw [Function.update_of_ne hv]
    exact h.others v hv
  have hbracketed := h.bracketed
  unfold step at hs
  split at hs
  · cases hs
  · rename_i rest hcode
    rw [hcode] at hbracketed
    rw [hbracketed.1] at hs
    cases hs
    exact ⟨hothers rest, by simpa using hbracketed.2, h.failed⟩
  · rename_i w rest hcode
    rw [hcode] at hbracketed
    cases hs
    refine ⟨hothers rest, ?_, h.failed⟩
    simpa only [Function.update_self, Bracketed] using hbracketed
  · rename_i rest hcode
    rw [hcode] at hbracketed
    cases hs
    exact ⟨hothers rest, by simpa using hbracketed.2, h.failed⟩

theorem neverFails_of_alone {sections : T → List (List ι)} (t : T) (h : ∀ u, u ≠ t → sections u = []) :
    NeverFails sections := by
  intro s hreach
  have halone : Alone t s := hreach.inv
    ⟨fun u hu => program_eq_nil.mpr (h u hu), bracketed_program (sections t), rfl⟩ fun _ _ _ ha _ hs => ha.kept hs
  exact halone.failed

/-! ### Two tasks -/

theorem step_free {s : State T ι} {t : T} {rest : List (Instr ι)} (hfree : s.locked = false)
    (hcode : s.code t = .tryLock :: rest) :
    ∃ s', step s t = some s' ∧ s'.locked = true ∧ ∀ u, u ≠ t → s'.code u = s.code u := by
  rw [step, hcode, hfree]
  exact ⟨_, rfl, rfl, fun u hu => Function.update_of_ne hu _ _⟩

theorem step_locked {s : State T ι} {t : T} {rest : List (Instr ι)} (hlocked : s.locked = true)
    (hcode : s.code t = .tryLock :: rest) : ∃ s', step s t = some s' ∧ s'.failed = true := by
  rw [step, hcode, hlocked]
  exact ⟨_, rfl, rfl⟩

omit [DecidableEq T] in
theorem program_eq_tryLock {sections : List (List ι)} (h : sections ≠ []) :
    ∃ rest, program sections = .tryLock :: rest := by
  obtain ⟨body, sections, rfl⟩ := List.exists_cons_of_ne_nil h
  exact ⟨_, rfl⟩

/-- The second task tries the lock while the first one holds it. -/
theorem exists_failed {sections : T → List (List ι)} {t u : T} (hne : t ≠ u) (ht : sections t ≠ [])
    (hu : sections u ≠ []) : ∃ s, run step (start sections) [t, u] = some s ∧ s.failed = true := by
  obtain ⟨rest, hcode⟩ := program_eq_tryLock ht
  obtain ⟨rest', hcode'⟩ := program_eq_tryLock hu
  obtain ⟨s, hs, hlocked, hothers⟩ := step_free (s := start sections) rfl hcode
  obtain ⟨s', hs', hfailed⟩ := step_locked hlocked ((hothers u hne.symm).trans hcode')
  exact ⟨s', run_cons_iff.mpr ⟨s, hs, run_cons_iff.mpr ⟨s', hs', rfl⟩⟩, hfailed⟩

/-- The lock is always free when it is tried exactly when at most one task ever tries it. -/
theorem neverFails_iff {sections : T → List (List ι)} :
    NeverFails sections ↔ ∀ t u, sections t ≠ [] → sections u ≠ [] → t = u := by
  constructor
  · intro h t u ht hu
    by_contra hne
    obtain ⟨s, hrun, hfailed⟩ := exists_failed hne ht hu
    rw [h s (Reachable.of_run _ hrun)] at hfailed
    cases hfailed
  · intro h
    by_cases hsome : ∃ t, sections t ≠ []
    · obtain ⟨t, ht⟩ := hsome
      exact neverFails_of_alone t fun u hu => by_contra fun hne => hu (h u t hne ht)
    · intro s hreach
      have hnone : ∀ t, sections t = [] := fun t => by_contra fun hne => hsome ⟨t, hne⟩
      have hstill : (∀ t, s.code t = []) ∧ s.failed = false := by
        refine hreach.inv (I := fun s => (∀ t, s.code t = []) ∧ s.failed = false)
          ⟨fun t => program_eq_nil.mpr (hnone t), rfl⟩ fun s s' u hs _ hstep => ?_
        rw [step, hs.1 u] at hstep
        cases hstep
      exact hstill.2

end TryLock
