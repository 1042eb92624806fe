import CryptixMiner.Lib.StepSystem
import Mathlib.Algebra.BigOperators.Group.Finset.Basic
import Mathlib.Algebra.Order.BigOperators.Group.Finset
import Mathlib.Logic.Function.Basic

/-! Threads in groups over one store. Each runs a program of its own; at its barrier it waits until the whole group
    is there, has passed, or has left. Invariants are shown thread by thread: what a thread claims of the store must
    survive the steps of the others, and at the barrier it learns what the others of its group claim. -/

namespace Grid
open StepSystem

/-- What a thread does next, given the store, its number and its place `L` in the program. -/
structure Program (σ L : Type*) where
  step : σ → Nat → L → Option (σ × L)
  /-- At the barrier; `pass` is the place behind it. -/
  waits : L → Bool
  pass : L → L
  /-- At the barrier, behind it, or gone. -/
  arrived : L → Bool

structure State (σ L : Type*) where
  store : σ
  place : Nat → L

section
variable {σ L : Type*}

def State.goTo (s : State σ L) (gid : Nat) (store : σ) (l : L) : State σ L :=
  { store := store, place := Function.update s.place gid l }

/-- The threads of a group are `dim` in a row. -/
def Program.allArrived (p : Program σ L) (threads dim : Nat) (s : State σ L) (gid : Nat) : Bool :=
  (List.range threads).all fun g => g / dim != gid / dim || p.arrived (s.place g)

def Program.gridStep (p : Program σ L) (threads dim : Nat) (s : State σ L) (gid : Nat) : Option (State σ L) :=
  if gid < threads then
    if p.waits (s.place gid) then
      if p.allArrived threads dim s gid then some (s.goTo gid s.store (p.pass (s.place gid))) else none
    else (p.step s.store gid (s.place gid)).map fun next => s.goTo gid next.1 next.2
  else none

/-- An outline of a program: `G` of the store, and `A` of the store and the place of a thread. -/
structure Outline (p : Program σ L) (threads dim : Nat) (G : σ → Prop) (A : σ → Nat → L → Prop) : Prop where
  own : ∀ {m m' gid l l'}, gid < threads → G m → A m gid l → p.waits l = false → p.step m gid l = some (m', l') →
    G m' ∧ A m' gid l'
  others : ∀ {m m' gid l l' g k}, gid < threads → G m → A m gid l → p.waits l = false →
    p.step m gid l = some (m', l') → g ≠ gid → A m g k → A m' g k
  pass : ∀ {m gid l}, gid < threads → G m → A m gid l → p.waits l = true →
    (∀ g, g < threads → g / dim = gid / dim → ∃ k, p.arrived k = true ∧ A m g k) → A m gid (p.pass l)

section Rules
variable {p : Program σ L} {threads dim gid : Nat} {s s' init : State σ L}

theorem gridStep_cases (h : p.gridStep threads dim s gid = some s') : gid < threads ∧
    ((p.waits (s.place gid) = true ∧ (∀ g, g < threads → g / dim = gid / dim → p.arrived (s.place g) = true) ∧
        s' = s.goTo gid s.store (p.pass (s.place gid))) ∨
      (p.waits (s.place gid) = false ∧ ∃ m l, p.step s.store gid (s.place gid) = some (m, l) ∧ s' = s.goTo gid m l)) := by
  unfold Program.gridStep at h
  split at h
  case isFalse => cases h
  next hlt =>
    refine ⟨hlt, ?_⟩
    split at h
    · next hwaits =>
      split at h
      case isFalse => cases h
      next hall =>
        cases h
        refine Or.inl ⟨hwaits, fun g hg hgroup => ?_, rfl⟩
        have hg := List.all_eq_true.mp hall g (List.mem_range.mpr hg)
        simpa [hgroup] using hg
    · next hgoes =>
      obtain ⟨⟨m, l⟩, hstep, rfl⟩ := Option.map_eq_some_iff.mp h
      exact Or.inr ⟨Bool.not_eq_true _ ▸ hgoes, m, l, hstep, rfl⟩

/-- The rule of the outlines. -/
theorem Outline.reachable {G : σ → Prop} {A : σ → Nat → L → Prop} (o : Outline p threads dim G A)
    (h : Reachable (p.gridStep threads dim) init s) (hG : G init.store) (hA : ∀ g, A init.store g (init.place g)) :
    G s.store ∧ ∀ g, A s.store g (s.place g) := by
  refine h.inv (I := fun s => G s.store ∧ ∀ g, A s.store g (s.place g)) ⟨hG, hA⟩ fun s s' gid hI _ hstep => ?_
  obtain ⟨hG, hA⟩ := hI
  obtain ⟨hlt, ⟨hwaits, hall, rfl⟩ | ⟨hgoes, m, l, hown, rfl⟩⟩ := gridStep_cases hstep
  · refine ⟨hG, fun g => ?_⟩
    by_cases hg : g = gid
    · subst hg
      simp only [State.goTo, Function.update_self]
      exact o.pass hlt hG (hA g) hwaits fun g' hg' hgroup => ⟨_, hall g' hg' hgroup, hA g'⟩
    · simp only [State.goTo, Function.update_of_ne hg]
      exact hA g
  · obtain ⟨hG', hA'⟩ := o.own hlt hG (hA gid) hgoes hown
    refine ⟨hG', fun g => ?_⟩
    by_cases hg : g = gid
    · subst hg
      simp only [State.goTo, Function.update_self]
      exact hA'
    · simp only [State.goTo, Function.update_of_ne hg]
      exact o.others hlt hG (hA gid) hgoes hown hg (hA g)

/-! ### The threads get to their ends -/

/-- `μ` measures what a thread has still to do; one that has not ended can go on, or waits. -/
structure Progress (p : Program σ L) (μ : L → Nat) (ended : L → Bool) : Prop where
  enabled : ∀ {l} m gid, ended l = false → p.waits l = false → ∃ next, p.step m gid l = some next
  own : ∀ {m gid l m' l'}, p.step m gid l = some (m', l') → μ l' < μ l
  pass : ∀ {l}, p.waits l = true → μ (p.pass l) < μ l
  arrived : ∀ {l}, p.waits l = true ∨ ended l = true → p.arrived l = true

def Ended (ended : L → Bool) (threads : Nat) (s : State σ L) : Prop := ∀ g, g < threads → ended (s.place g) = true

def toDo (μ : L → Nat) (threads : Nat) (s : State σ L) : Nat := ∑ g ∈ Finset.range threads, μ (s.place g)

theorem toDo_goTo_lt {μ : L → Nat} {m : σ} {l : L} (hgid : gid < threads) (hlt : μ l < μ (s.place gid)) :
    toDo μ threads (s.goTo gid m l) < toDo μ threads s := by
  refine Finset.sum_lt_sum (fun g _ => ?_) ⟨gid, Finset.mem_range.mpr hgid, ?_⟩
  · simp only [State.goTo, Function.update_apply]
    split
    · next heq => exact heq ▸ Nat.le_of_lt hlt
    · exact Nat.le_refl _
  · simpa only [State.goTo, Function.update_self] using hlt

variable {μ : L → Nat} {ended : L → Bool}

theorem Progress.toDo_lt (hp : Progress p μ ended) (h : p.gridStep threads dim s gid = some s') :
    toDo μ threads s' < toDo μ threads s := by
  obtain ⟨hlt, ⟨hwaits, -, rfl⟩ | ⟨-, m, l, hown, rfl⟩⟩ := gridStep_cases h
  · exact toDo_goTo_lt hlt (hp.pass hwaits)
  · exact toDo_goTo_lt hlt (hp.own hown)

/-- No order of the steps goes on for longer than the measure says. -/
theorem Progress.length_le (hp : Progress p μ ended) {as : List Nat}
    (hrun : run (p.gridStep threads dim) s as = some s') : as.length + toDo μ threads s' ≤ toDo μ threads s := by
  induction as generalizing s with
  | nil =>
    cases hrun
    exact Nat.le_of_eq (Nat.zero_add _)
  | cons gid as ih =>
    obtain ⟨u, hu, hrest⟩ := run_cons_iff.mp hrun
    have hlt := hp.toDo_lt hu
    have hle := ih hrest
    rw [List.length_cons]
    omega

/-- While a thread has not ended, some thread can take a step: the barriers never lock the grid. -/
theorem Progress.exists_step (hp : Progress p μ ended) (dim : Nat) (hnot : ¬Ended ended threads s) :
    ∃ gid s', p.gridStep threads dim s gid = some s' := by
  simp only [Ended, not_forall] at hnot
  obtain ⟨g, hg, hends⟩ := hnot
  by_cases hgoes : ∃ g, g < threads ∧ ended (s.place g) = false ∧ p.waits (s.place g) = false
  · obtain ⟨g, hg, hends, hwaits⟩ := hgoes
    obtain ⟨next, hnext⟩ := hp.enabled s.store g hends hwaits
    exact ⟨g, _, by rw [Program.gridStep, if_pos hg, hwaits, if_neg Bool.false_ne_true, hnext]; rfl⟩
  · -- Whoever has not ended waits, so all have arrived.
    have hwaits : ∀ g, g < threads → ended (s.place g) = true ∨ p.waits (s.place g) = true := by
      intro g hg
      by_contra hneither
      rw [not_or, Bool.not_eq_true, Bool.not_eq_true] at hneither
      exact hgoes ⟨g, hg, hneither⟩
    have hall : p.allArrived threads dim s g = true := by
      refine List.all_eq_true.mpr fun g' hg' => ?_
      rw [hp.arrived (hwaits g' (List.mem_range.mp hg')).symm, Bool.or_true]
    have hw : p.waits (s.place g) = true := (hwaits g hg).resolve_left hends
    exact ⟨g, _, by rw [Program.gridStep, if_pos hg, if_pos hw, if_pos hall]⟩

/-- From every state the grid can run to its end. -/
theorem Progress.exists_end (hp : Progress p μ ended) (threads dim : Nat) (s : State σ L) :
    ∃ as s', run (p.gridStep threads dim) s as = some s' ∧ Ended ended threads s' := by
  obtain ⟨as, s', hrun, -, hends⟩ := exists_run (p.gridStep threads dim) (fun _ => True) (Ended ended threads)
    (toDo μ threads) (fun s _ hnot => by
      obtain ⟨gid, s', hstep⟩ := hp.exists_step dim hnot
      exact ⟨gid, s', hstep, trivial, hp.toDo_lt hstep⟩) (s := s) trivial
  exact ⟨as, s', hrun, hends⟩

end Rules
end
end Grid
