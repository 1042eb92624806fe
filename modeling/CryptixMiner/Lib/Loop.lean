import Mathlib.Data.Nat.Basic

/-! Counted loops over a state, and the arrays they fill. A loop runs its body on the indices
    `lo, lo + 1, ..., hi - 1` in order; its rules carry an invariant, or a relation to a second loop,
    from index to index. -/

namespace Loop

/-- `for i in lo..hi { s = body(i, s) }`. -/
def forRange {σ : Type*} (lo hi : Nat) (body : Nat → σ → σ) (s : σ) : σ :=
  Nat.fold (hi - lo) (fun k _ s => body (lo + k) s) s

/-- `for i in lo..hi { if stop(i) { break; } s = body(i, s) }`, with `hi - lo` rounds to go. -/
def forUntil {σ : Type*} (stop : Nat → Bool) (body : Nat → σ → σ) : (rounds lo : Nat) → σ → σ
  | 0, _, s => s
  | rounds + 1, lo, s => if stop lo then s else forUntil stop body rounds (lo + 1) (body lo s)

section Rules
variable {σ τ : Type*} {lo hi : Nat}

@[simp] theorem forRange_self (body : Nat → σ → σ) (s : σ) : forRange lo lo body s = s := by
  unfold forRange
  rw [Nat.sub_self]
  rfl

theorem forRange_succ (h : lo ≤ hi) (body : Nat → σ → σ) (s : σ) :
    forRange lo (hi + 1) body s = body hi (forRange lo hi body s) := by
  have hlen : hi + 1 - lo = (hi - lo) + 1 := by omega
  simp only [forRange]
  rw [hlen, Nat.fold_succ, Nat.add_sub_cancel' h]

/-- The rule of a loop: what holds before index `lo` and passes from `i` to `i + 1` holds at `hi`. -/
theorem forRange_inv {P : Nat → σ → Prop} {body : Nat → σ → σ} {s : σ} (hle : lo ≤ hi) (h0 : P lo s)
    (step : ∀ i s, lo ≤ i → i < hi → P i s → P (i + 1) (body i s)) : P hi (forRange lo hi body s) := by
  induction hi, hle using Nat.le_induction with
  | base => simpa using h0
  | succ hi hle ih =>
    rw [forRange_succ hle]
    exact step hi _ hle (Nat.lt_succ_self hi) (ih fun i s hi' hlt => step i s hi' (Nat.lt_succ_of_lt hlt))

/-- The rule of two loops over one range: a relation kept by each pair of bodies relates their results. -/
theorem forRange_rel {R : Nat → σ → τ → Prop} {f : Nat → σ → σ} {g : Nat → τ → τ} {s : σ} {t : τ}
    (hle : lo ≤ hi) (h0 : R lo s t)
    (step : ∀ i s t, lo ≤ i → i < hi → R i s t → R (i + 1) (f i s) (g i t)) :
    R hi (forRange lo hi f s) (forRange lo hi g t) := by
  induction hi, hle using Nat.le_induction with
  | base => simpa using h0
  | succ hi hle ih =>
    rw [forRange_succ hle, forRange_succ hle]
    exact step hi _ _ hle (Nat.lt_succ_self hi)
      (ih fun i s t hi' hlt => step i s t hi' (Nat.lt_succ_of_lt hlt))

theorem forRange_congr {f g : Nat → σ → σ} {s : σ} (hle : lo ≤ hi)
    (h : ∀ i s, lo ≤ i → i < hi → f i s = g i s) : forRange lo hi f s = forRange lo hi g s :=
  forRange_rel (R := fun _ s t => s = t) hle rfl fun i s t hi' hlt heq => by
    subst heq
    exact h i s hi' hlt

theorem forRange_eq_body (h : lo < hi) (body : Nat → σ → σ) (s : σ) :
    forRange lo hi body s = forRange (lo + 1) hi body (body lo s) := by
  induction hi, h using Nat.le_induction with
  | base => rw [forRange_succ (Nat.le_refl lo), forRange_self, forRange_self]
  | succ hi hle ih => rw [forRange_succ (Nat.le_of_succ_le hle), forRange_succ hle, ih]

/-- A loop that breaks at the bound of another loop runs like it. -/
theorem forUntil_le (body : Nat → σ → σ) :
    ∀ (rounds lo : Nat) (s : σ), lo ≤ hi → hi ≤ lo + rounds →
      forUntil (fun i => decide (hi ≤ i)) body rounds lo s = forRange lo hi body s
  | 0, lo, s, hlo, hhi => by
    have heq : hi = lo := by omega
    rw [heq, forRange_self]
    rfl
  | rounds + 1, lo, s, hlo, hhi => by
    rcases Nat.eq_or_lt_of_le hlo with rfl | hlt
    · simp [forUntil]
    · have hstop : ¬hi ≤ lo := by omega
      rw [forUntil, decide_eq_false hstop, if_neg Bool.false_ne_true,
        forUntil_le body rounds (lo + 1) (body lo s) hlt (by omega), forRange_eq_body hlt]

/-- A search: the index stops at the first place where `stop` holds, or at the end. -/
theorem forUntil_index (stop : Nat → Bool) :
    ∀ rounds lo : Nat, let j := forUntil stop (fun _ j => j + 1) rounds lo lo
      lo ≤ j ∧ j ≤ lo + rounds ∧ (j < lo + rounds → stop j = true) ∧ ∀ k, lo ≤ k → k < j → stop k = false
  | 0, lo => ⟨Nat.le_refl lo, Nat.le_refl lo, fun h => absurd h (Nat.lt_irrefl lo), fun k hlo hk => by
      exact absurd hk (Nat.not_lt.mpr hlo)⟩
  | rounds + 1, lo => by
    by_cases hstop : stop lo = true
    · simp only [forUntil, hstop, if_true]
      exact ⟨Nat.le_refl lo, Nat.le_add_right lo _, fun _ => trivial, fun k hlo hk => absurd hk (Nat.not_lt.mpr hlo)⟩
    · obtain ⟨hlo, hhi, hend, hbefore⟩ := forUntil_index stop rounds (lo + 1)
      have hround : lo + 1 + rounds = lo + (rounds + 1) := by omega
      simp only [forUntil, if_neg hstop]
      refine ⟨Nat.le_of_succ_le hlo, hround ▸ hhi, hround ▸ hend, fun k hk hlt => ?_⟩
      rcases Nat.eq_or_lt_of_le hk with rfl | hk
      · exact Bool.eq_false_iff.mpr hstop
      · exact hbefore k hk hlt

end Rules

/-! ### Arrays -/

section Arrays
variable {α : Type*} {n : Nat}

theorem getElem_set! {v : Vector α n} {i j : Nat} {x : α} (hj : j < n) :
    (v.set! i x)[j] = if i = j then x else v[j] := Vector.getElem_setIfInBounds hj

@[simp] theorem getElem!_eq [Inhabited α] (v : Vector α n) {i : Nat} (h : i < n) : v[i]! = v[i] :=
  getElem!_pos v i h

theorem getElem!_set! [Inhabited α] {v : Vector α n} {i : Nat} (hi : i < n) (j : Nat) {x : α} :
    (v.set! i x)[j]! = if i = j then x else v[j]! := by
  rcases Nat.lt_or_ge j n with hj | hj
  · rw [getElem!_eq _ hj, getElem!_eq _ hj, getElem_set! hj]
  · have hne : i ≠ j := by omega
    rw [getElem!_neg (v.set! i x) j (Nat.not_lt.mpr hj), getElem!_neg v j (Nat.not_lt.mpr hj), if_neg hne]

/-- A loop that stores in a row of entries from `offset` on: each of them becomes what its step computes
    from the entry as it was, the others stay. -/
theorem getElem_forRange_set!_add [Inhabited α] (f : Nat → α → α) (v : Vector α n) (offset m : Nat) {j : Nat}
    (hj : j < n) : (forRange 0 m (fun i v => v.set! (offset + i) (f i v[offset + i]!)) v)[j] =
      if offset ≤ j ∧ j < offset + m then f (j - offset) v[j] else v[j] := by
  refine forRange_inv (P := fun i (w : Vector α n) =>
      w[j] = if offset ≤ j ∧ j < offset + i then f (j - offset) v[j] else v[j])
    (Nat.zero_le m) ?_ fun i w _ _ ih => ?_
  · have hout : ¬(offset ≤ j ∧ j < offset + 0) := by omega
    rw [if_neg hout]
  · rw [getElem_set! hj]
    by_cases hij : offset + i = j
    · have hin : offset ≤ j ∧ j < offset + (i + 1) := by omega
      have hnot : ¬(offset ≤ j ∧ j < offset + i) := by omega
      have hsub : j - offset = i := by omega
      have hold : w[j] = v[j] := by rw [ih, if_neg hnot]
      rw [if_pos hij, if_pos hin, hsub, hij, getElem!_eq w hj, hold]
    · have hiff : (offset ≤ j ∧ j < offset + (i + 1)) ↔ (offset ≤ j ∧ j < offset + i) := by omega
      rw [if_neg hij, ih, if_congr hiff rfl rfl]

/-- A loop that stores at its own index fills the array: entry `j` is the value stored at step `j`,
    computed from the entry as it was. -/
theorem getElem_forRange_set! [Inhabited α] (f : Nat → α → α) (v : Vector α n) (m : Nat) {j : Nat} (hj : j < n) :
    (forRange 0 m (fun i v => v.set! i (f i v[i]!)) v)[j] = if j < m then f j v[j] else v[j] := by
  have h := getElem_forRange_set!_add f v 0 m hj
  simpa only [Nat.zero_add, Nat.zero_le, true_and, Nat.sub_zero] using h

/-- The value that is carried to step `k` of a walk through an array: at first `t`, then the entry just left. -/
def carried [Inhabited α] (v : Vector α n) (place : Nat → Nat) (t : α) : Nat → α
  | 0 => t
  | k + 1 => v[place k]!

/-- A walk that never comes back to a place it has written: each place takes what was carried there. -/
theorem forRange_carry [Inhabited α] (f : Nat → α → α) (v : Vector α n) (place : Nat → Nat) (t : α) {m : Nat}
    (hlt : ∀ k < m, place k < n) (hinj : ∀ k < m, ∀ l < m, place k = place l → k = l) :
    let walk := forRange 0 m (fun k (s : α × Vector α n) => (s.2[place k]!, s.2.set! (place k) (f k s.1))) (t, v)
    (∀ k < m, walk.2[place k]! = f k (carried v place t k)) ∧
      ∀ j, (∀ k < m, place k ≠ j) → walk.2[j]! = v[j]! := by
  have hrun : ∀ i ≤ m, let walk := forRange 0 i (fun k (s : α × Vector α n) =>
        (s.2[place k]!, s.2.set! (place k) (f k s.1))) (t, v)
      walk.1 = carried v place t i ∧ (∀ k < i, walk.2[place k]! = f k (carried v place t k)) ∧
        ∀ j, (∀ k < i, place k ≠ j) → walk.2[j]! = v[j]! := by
    intro i
    induction i with
    | zero =>
      intro _
      refine ⟨rfl, fun k hk => absurd hk (Nat.not_lt_zero k), fun _ _ => rfl⟩
    | succ i ih =>
      intro hi
      obtain ⟨hcarried, hwritten, hrest⟩ := ih (Nat.le_of_succ_le hi)
      rw [forRange_succ (Nat.zero_le i)]
      refine ⟨?_, fun k hk => ?_, fun j hj => ?_⟩
      · -- The place is new, so it still holds what `v` held.
        refine hrest _ fun k hk heq => ?_
        have := hinj k (by omega) i hi heq
        omega
      · rcases Nat.lt_succ_iff_lt_or_eq.mp hk with hlt' | rfl
        · have hne : place i ≠ place k := fun heq => by
            have := hinj i hi k (by omega) heq
            omega
          rw [getElem!_set! (hlt i hi), if_neg hne, hwritten k hlt']
        · rw [getElem!_set! (hlt k hi), if_pos rfl, hcarried]
      · rw [getElem!_set! (hlt i hi), if_neg (hj i (Nat.lt_succ_self i)), hrest j fun k hk => hj k (Nat.lt_succ_of_lt hk)]
  exact (hrun m (Nat.le_refl m)).2

/-! ### Pieces of one length -/

/-- Where all pieces have one length, position `c * i + j` is position `j` of piece `i`. -/
theorem getElem?_flatMap_of_length {β : Type*} {f : α → List β} {c : Nat} (hc : ∀ x, (f x).length = c) {j : Nat} (hj : j < c) :
    ∀ (l : List α) (i : Nat), (l.flatMap f)[c * i + j]? = (l[i]?).bind fun x => (f x)[j]?
  | [], i => by simp
  | x :: l, 0 => by
    rw [List.flatMap_cons, Nat.mul_zero, Nat.zero_add, List.getElem?_append_left (by rw [hc]; exact hj)]
    rfl
  | x :: l, i + 1 => by
    have hsub : c * (i + 1) + j - c = c * i + j := by rw [Nat.mul_succ]; omega
    rw [List.flatMap_cons, List.getElem?_append_right (by rw [hc, Nat.mul_succ]; omega), hc, hsub,
      getElem?_flatMap_of_length hc hj l i]
    rfl

end Arrays
end Loop
