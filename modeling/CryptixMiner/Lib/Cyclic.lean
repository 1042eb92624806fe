import Mathlib.Data.Nat.Periodic

/-! A counter modulo `n` that advances by one. Any `n` advances in a row run through every value below `n`
    once, so how many of them start from a value with some property does not depend on where they begin. -/

namespace Cyclic

/-- `l` are the values that advances of a counter modulo `n` started from, newest first, and `c` is its
    value now. -/
def CountsTo (n : Nat) : List Nat → Nat → Prop
  | [], c => c < n
  | v :: l, c => c = (v + 1) % n ∧ CountsTo n l v

variable {n : Nat} {l w : List Nat} {c v : Nat}

theorem CountsTo.lt (h : CountsTo n l c) (hn : 0 < n) : c < n := by
  cases l with
  | nil => exact h
  | cons v l => exact h.1 ▸ Nat.mod_lt _ hn

theorem CountsTo.of_append : ∀ {l : List Nat} {c : Nat}, CountsTo n (l ++ w) c → ∃ d, CountsTo n w d
  | [], c, h => ⟨c, h⟩
  | _ :: _, _, h => of_append h.2

/-- Cutting off the oldest advances leaves the others in place. -/
theorem CountsTo.append_left (hn : 0 < n) : ∀ {l : List Nat} {c : Nat}, CountsTo n (l ++ w) c → CountsTo n l c
  | [], _, h => h.lt hn
  | _ :: _, _, h => ⟨h.1, append_left hn h.2⟩

/-- The advances are the numbers of an interval that ends where the counter is, read modulo `n`. -/
theorem CountsTo.countP_eq (P : Nat → Prop) [DecidablePred P] (hn : 0 < n) :
    ∀ {l : List Nat} {c b : Nat}, CountsTo n l c → (b + l.length) % n = c →
      l.countP (fun v => P v) = ((Finset.Ico b (b + l.length)).filter fun x => P (x % n)).card
  | [], _, _, _, _ => by simp
  | v :: l, c, b, h, hb => by
    have hv : (b + l.length) % n = v := by
      have hmod : b + l.length + 1 ≡ v + 1 [MOD n] := hb.trans h.1
      have hcancel : (b + l.length) % n = v % n := Nat.ModEq.add_right_cancel' 1 hmod
      rwa [Nat.mod_eq_of_lt (h.2.lt hn)] at hcancel
    have hprev := h.2.countP_eq P hn hv
    have hsplit : Finset.Ico b (b + (v :: l).length) = insert (b + l.length) (Finset.Ico b (b + l.length)) := by
      rw [List.length_cons, ← Nat.add_assoc, Finset.insert_Ico_right_eq_Ico_add_one (Nat.le_add_right _ _)]
    rw [hsplit, Finset.filter_insert, hv, List.countP_cons, hprev]
    by_cases hP : P v <;> simp [hP]

/-- Any `n` advances in a row start from a value with `P` as often as there are such values below `n`. -/
theorem CountsTo.count_window (P : Nat → Prop) [DecidablePred P] {pre post : List Nat} (hn : 0 < n)
    (h : CountsTo n (pre ++ w ++ post) c) (hw : w.length = n) : w.countP (fun v => P v) = n.count P := by
  rw [List.append_assoc] at h
  obtain ⟨d, hd⟩ := h.of_append
  have hwd := hd.append_left hn
  have hend : (d + w.length) % n = d := by rw [hw, Nat.add_mod_right, Nat.mod_eq_of_lt (hwd.lt hn)]
  have hper : Function.Periodic (fun x => P (x % n)) n := fun x => by simp only [Nat.add_mod_right]
  rw [hwd.countP_eq P hn hend, hw, Nat.filter_Ico_card_eq_of_periodic d n _ hper, Nat.count_eq_card_filter_range,
    Nat.count_eq_card_filter_range]
  refine congrArg Finset.card (Finset.filter_congr fun x hx => ?_)
  rw [Nat.mod_eq_of_lt (Finset.mem_range.mp hx)]

/-- A 16-bit counter modulo 10000 advances without overflow. -/
theorem toNat_next {ctr : UInt16} (hlt : ctr.toNat < 10000) : ((ctr + 1) % 10000).toNat = (ctr.toNat + 1) % 10000 := by
  have hadd : (ctr + 1).toNat = ctr.toNat + 1 := by
    rw [UInt16.toNat_add]
    simp only [UInt16.reduceToNat]
    omega
  rw [UInt16.toNat_mod, hadd]
  rfl

/-- Of the values below `n`, `q` are below `q`. -/
theorem count_lt {q : Nat} (hq : q ≤ n) : n.count (· < q) = q := by
  rw [Nat.count_eq_card_filter_range]
  have hrange : (Finset.range n).filter (· < q) = Finset.range q := by
    ext x
    simp only [Finset.mem_filter, Finset.mem_range]
    omega
  rw [hrange, Finset.card_range]

end Cyclic
