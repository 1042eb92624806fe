import Mathlib.Logic.Basic

/-! Systems that take one action at a time. `step s a` is `none` when the action is not enabled;
    `run` takes a list of actions, `ReachableBy` the states that runs reach when every action meets a
    condition on the state it is taken in, and `Along` says the same of one run. -/

namespace StepSystem
variable {σ A : Type*}

def run (step : σ → A → Option σ) : σ → List A → Option σ
  | s, [] => some s
  | s, a :: as => (step s a).bind fun t => run step t as

/-- The states that actions meeting `ok` reach from `init`. -/
inductive ReachableBy (step : σ → A → Option σ) (ok : σ → A → Prop) (init : σ) : σ → Prop where
  | init : ReachableBy step ok init init
  | step {s t : σ} {a : A} : ReachableBy step ok init s → ok s a → step s a = some t →
      ReachableBy step ok init t

abbrev Reachable (step : σ → A → Option σ) (init : σ) : σ → Prop := ReachableBy step (fun _ _ => True) init

/-- Every action of the run meets `ok` in the state it is taken in. -/
def Along (step : σ → A → Option σ) (ok : σ → A → Prop) : σ → List A → Prop
  | _, [] => True
  | s, a :: as => ok s a ∧ ∀ t, step s a = some t → Along step ok t as

/-- Every state of the run, the first and the last included, satisfies `P`. -/
def Always (step : σ → A → Option σ) (P : σ → Prop) : σ → List A → Prop
  | s, [] => P s
  | s, a :: as => P s ∧ ∀ t, step s a = some t → Always step P t as

section Runs
variable {step : σ → A → Option σ} {ok ok' : σ → A → Prop} {init s t : σ} {a : A} {as bs : List A}

theorem run_cons_iff : run step s (a :: as) = some t ↔ ∃ u, step s a = some u ∧ run step u as = some t :=
  Option.bind_eq_some_iff

theorem run_append (h : run step s as = some t) : run step s (as ++ bs) = run step t bs := by
  induction as generalizing s with
  | nil =>
    cases h
    rfl
  | cons a as ih =>
    obtain ⟨u, hu, hrest⟩ := run_cons_iff.mp h
    simp only [List.cons_append, run, hu, Option.bind_some]
    exact ih hrest

/-- The invariant rule: what holds at first and passes through every allowed step holds in every state
    those steps reach. -/
theorem ReachableBy.inv {I : σ → Prop} (h : ReachableBy step ok init s) (h0 : I init)
    (hstep : ∀ s t a, I s → ok s a → step s a = some t → I t) : I s := by
  induction h with
  | init => exact h0
  | step _ hok hs ih => exact hstep _ _ _ ih hok hs

theorem ReachableBy.run (h : ReachableBy step ok init s) (hrun : run step s as = some t)
    (hok : Along step ok s as) : ReachableBy step ok init t := by
  induction as generalizing s with
  | nil =>
    cases hrun
    exact h
  | cons a as ih =>
    obtain ⟨u, hu, hrest⟩ := run_cons_iff.mp hrun
    exact ih (h.step hok.1 hu) hrest (hok.2 u hu)

/-- The same for one run, where a step may look back at the actions before it. -/
theorem run_inv {I : σ → Prop} (hrun : StepSystem.run step s as = some t) (h0 : I s)
    (hstep : ∀ pre a post u v, as = pre ++ a :: post → StepSystem.run step s pre = some u → I u →
      step u a = some v → I v) : I t := by
  have hrest : ∀ rest pre u, as = pre ++ rest → StepSystem.run step s pre = some u → I u →
      StepSystem.run step u rest = some t → I t := by
    intro rest
    induction rest with
    | nil =>
      intro pre u _ _ hu hend
      cases hend
      exact hu
    | cons a rest ih =>
      intro pre u has hpre hu hend
      obtain ⟨v, hv, hend⟩ := run_cons_iff.mp hend
      have hlast : StepSystem.run step s (pre ++ [a]) = some v := by
        rw [run_append hpre]
        exact run_cons_iff.mpr ⟨v, hv, rfl⟩
      exact ih (pre ++ [a]) v (by rw [has, List.append_assoc, List.singleton_append]) hlast
        (hstep pre a rest u v has hpre hu hv) hend
  exact hrest as [] s rfl rfl h0 hrun

theorem along_true : Along step (fun _ _ => True) s as := by
  induction as generalizing s with
  | nil => trivial
  | cons a as ih => exact ⟨trivial, fun _ _ => ih⟩

theorem along_of_forall {p : A → Prop} (h : ∀ a ∈ as, p a) : Along step (fun _ a => p a) s as := by
  induction as generalizing s with
  | nil => trivial
  | cons a as ih =>
    exact ⟨h a List.mem_cons_self, fun _ _ => ih fun b hb => h b (List.mem_cons_of_mem a hb)⟩

theorem ReachableBy.of_run (as : List A) (hrun : StepSystem.run step init as = some t)
    (hok : Along step ok init as) : ReachableBy step ok init t :=
  ReachableBy.init.run hrun hok

theorem Reachable.of_run (as : List A) (hrun : StepSystem.run step init as = some t) : Reachable step init t :=
  ReachableBy.of_run as hrun along_true

theorem Along.imp (h : Along step ok s as) (himp : ∀ s a, ok s a → ok' s a) : Along step ok' s as := by
  induction as generalizing s with
  | nil => trivial
  | cons a as ih => exact ⟨himp s a h.1, fun t ht => ih (h.2 t ht)⟩

theorem Along.cons (hok : ok s a) (hs : step s a = some t) (h : Along step ok t as) :
    Along step ok s (a :: as) := by
  refine ⟨hok, fun u hu => ?_⟩
  rw [hs] at hu
  cases hu
  exact h

/-- A state property that the allowed steps keep holds throughout a run of them. -/
theorem Along.always {P I : σ → Prop} (h : Along step ok s as) (h0 : I s)
    (hstep : ∀ s t a, I s → ok s a → step s a = some t → I t) (himp : ∀ s, I s → P s) :
    Always step P s as := by
  induction as generalizing s with
  | nil => exact himp s h0
  | cons a as ih => exact ⟨himp s h0, fun t ht => ih (h.2 t ht) (hstep s t a h0 h.1 ht)⟩

/-- Two conditions that agree wherever an invariant holds, along a run whose steps keep it. -/
theorem Along.congr_inv {P Q I : σ → A → Prop} {J : σ → Prop} (h : Along step I s as) (h0 : J s)
    (hstep : ∀ s t a, J s → I s a → step s a = some t → J t) (hiff : ∀ s a, J s → (P s a ↔ Q s a)) :
    Along step P s as ↔ Along step Q s as := by
  induction as generalizing s with
  | nil => exact Iff.rfl
  | cons a as ih =>
    exact and_congr (hiff s a h0) (forall_congr' fun t => forall_congr' fun ht => ih (h.2 t ht) (hstep s t a h0 h.1 ht))

/-- A measure that no step brings down is at the end of a run what it was at its start just when every
    action is one that leaves it alone. -/
theorem along_iff_of_mono {I : σ → Prop} {μ : σ → Nat}
    (hstep : ∀ s t a, I s → step s a = some t → I t ∧ μ s ≤ μ t ∧ (μ t = μ s ↔ ok s a)) (h0 : I s)
    (hrun : run step s as = some t) : μ s ≤ μ t ∧ (μ t = μ s ↔ Along step ok s as) := by
  induction as generalizing s with
  | nil =>
    cases hrun
    exact ⟨Nat.le_refl _, iff_of_true rfl trivial⟩
  | cons a as ih =>
    obtain ⟨u, hu, hrest⟩ := run_cons_iff.mp hrun
    obtain ⟨hIu, hle, hok⟩ := hstep s u a h0 hu
    obtain ⟨hle', hrest'⟩ := ih hIu hrest
    refine ⟨Nat.le_trans hle hle', fun heq => ?_, fun hall => ?_⟩
    · exact Along.cons (hok.mp (by omega)) hu (hrest'.mp (by omega))
    · rw [hrest'.mpr (hall.2 u hu), hok.mpr hall.1]

theorem Always.head {P : σ → Prop} (h : Always step P s as) : P s := by
  cases as with
  | nil => exact h
  | cons a as => exact h.1

/-- A system whose steps are those of another one, seen through `f`, has the same runs. -/
theorem run_map {τ : Type*} {step' : τ → A → Option τ} (f : σ → τ)
    (hstep : ∀ s a, step' (f s) a = (step s a).map f) (as : List A) :
    ∀ s, StepSystem.run step' (f s) as = (StepSystem.run step s as).map f := by
  induction as with
  | nil => exact fun _ => rfl
  | cons a as ih =>
    intro s
    rw [run, run, hstep]
    cases step s a with
    | none => rfl
    | some t => exact ih t

/-- A system whose steps another one can follow, seen through `f` and `g`, has no other runs than that one. -/
theorem run_follow {τ B : Type*} {step' : τ → B → Option τ} (f : σ → τ) (g : A → B)
    (hstep : ∀ s a t, step s a = some t → step' (f s) (g a) = some (f t)) (hrun : StepSystem.run step s as = some t) :
    StepSystem.run step' (f s) (as.map g) = some (f t) := by
  induction as generalizing s with
  | nil =>
    cases hrun
    rfl
  | cons a as ih =>
    obtain ⟨u, hu, hrest⟩ := run_cons_iff.mp hrun
    exact run_cons_iff.mpr ⟨f u, hstep s a u hu, ih hrest⟩

/-- Weak simulation: another system follows every step by steps of its own, and comes to the same labels, if later.
    `behind` holds what it has not come to yet. -/
theorem run_simulate {τ B L : Type*} {step' : τ → B → Option τ} {R : σ → τ → List L → Prop} {label : A → List L}
    {label' : B → List L} (hstep : ∀ s t x a behind, R s x behind → step s a = some t →
      ∃ bs y behind', StepSystem.run step' x bs = some y ∧ R t y behind' ∧
        behind ++ label a = bs.flatMap label' ++ behind')
    {x : τ} {behind : List L} (h0 : R s x behind) (hrun : StepSystem.run step s as = some t) :
    ∃ bs y behind', StepSystem.run step' x bs = some y ∧ R t y behind' ∧
      behind ++ as.flatMap label = bs.flatMap label' ++ behind' := by
  induction as generalizing s x behind with
  | nil =>
    cases hrun
    exact ⟨[], x, behind, rfl, h0, List.append_nil behind⟩
  | cons a as ih =>
    obtain ⟨u, hu, hrest⟩ := run_cons_iff.mp hrun
    obtain ⟨bs, y, now, hy, hR, hlabel⟩ := hstep s u x a behind h0 hu
    obtain ⟨bs', z, later, hz, hR', hlabel'⟩ := ih hR hrest
    refine ⟨bs ++ bs', z, later, (run_append hy).trans hz, hR', ?_⟩
    rw [List.flatMap_cons, List.flatMap_append, ← List.append_assoc, hlabel, List.append_assoc, hlabel',
      List.append_assoc]

theorem Reachable.map {τ : Type*} {step' : τ → A → Option τ} (f : σ → τ)
    (hstep : ∀ s a, step' (f s) a = (step s a).map f) (h : Reachable step init s) : Reachable step' (f init) (f s) := by
  induction h with
  | init => exact .init
  | step _ _ hs ih => exact ih.step trivial (by rw [hstep, hs]; rfl)

/-- When some action is enabled and brings a measure down wherever the run is not done, it can be done. -/
theorem exists_run (step : σ → A → Option σ) (I done : σ → Prop) (μ : σ → Nat)
    (h : ∀ s, I s → ¬done s → ∃ a t, step s a = some t ∧ I t ∧ μ t < μ s) (hs : I s) :
    ∃ as t, run step s as = some t ∧ I t ∧ done t := by
  induction hn : μ s using Nat.strongRecOn generalizing s with
  | _ n ih =>
    by_cases hdone : done s
    · exact ⟨[], s, rfl, hs, hdone⟩
    · obtain ⟨a, t, hstep, ht, hlt⟩ := h s hs hdone
      obtain ⟨as, u, hrun, hu⟩ := ih (μ t) (hn ▸ hlt) ht rfl
      exact ⟨a :: as, u, run_cons_iff.mpr ⟨t, hstep, hrun⟩, hu⟩

end Runs
end StepSystem
