import CryptixMiner.Lib.Words

/-! Numbers as rows of 64-bit limbs, least significant limb first: their value, their order, and a limb that is
    shifted over the border of two. -/

namespace Limbs

def value : List UInt64 → Nat
  | [] => 0
  | w :: ws => w.toNat + 2 ^ 64 * value ws

theorem value_lt (ws : List UInt64) : value ws < 2 ^ (64 * ws.length) := by
  induction ws with
  | nil => exact Nat.one_pos
  | cons w ws ih =>
    have hw := w.toNat_lt
    have hpow : 2 ^ (64 * (w :: ws).length) = 2 ^ 64 * 2 ^ (64 * ws.length) := by
      rw [List.length_cons, Nat.mul_succ, Nat.add_comm, Nat.pow_add]
    rw [value, hpow]
    omega

/-- A limb that is replaced counts at its place. -/
theorem value_set : ∀ {ws : List UInt64} {k : Nat} (_ : k < ws.length) (w : UInt64),
    value (ws.set k w) + 2 ^ (64 * k) * ws[k].toNat = value ws + 2 ^ (64 * k) * w.toNat
  | x :: xs, 0, _, w => by
    rw [List.set_cons_zero, value, value, List.getElem_cons_zero, Nat.mul_zero, Nat.pow_zero, Nat.one_mul, Nat.one_mul]
    omega
  | x :: xs, k + 1, hk, w => by
    have ih := value_set (Nat.lt_of_succ_lt_succ hk) w
    have hpow : 2 ^ (64 * (k + 1)) = 2 ^ 64 * 2 ^ (64 * k) := by rw [Nat.mul_succ, Nat.add_comm, Nat.pow_add]
    rw [List.set_cons_succ, value, value, List.getElem_cons_succ, hpow, Nat.mul_assoc, Nat.mul_assoc]
    omega

theorem value_set! {n : Nat} {v : Vector UInt64 n} {k : Nat} (hk : k < n) (w : UInt64) :
    value (v.set! k w).toList + 2 ^ (64 * k) * v[k]!.toNat = value v.toList + 2 ^ (64 * k) * w.toNat := by
  have hk' : k < v.toList.length := by rwa [Vector.length_toList]
  have hset := value_set hk' w
  have hlist : (v.set! k w).toList = v.toList.set k w := by simp
  have hword : v.toList[k] = v[k]! := by simp [hk]
  rw [hlist, ← hset, hword]

theorem value_take_succ : ∀ {ws : List UInt64} {i : Nat} (_ : i < ws.length),
    value (ws.take (i + 1)) = value (ws.take i) + 2 ^ (64 * i) * ws[i].toNat
  | x :: xs, 0, _ => by simp [value]
  | x :: xs, i + 1, hi => by
    have ih := value_take_succ (Nat.lt_of_succ_lt_succ hi)
    have hpow : 2 ^ (64 * (i + 1)) = 2 ^ 64 * 2 ^ (64 * i) := by rw [Nat.mul_succ, Nat.add_comm, Nat.pow_add]
    rw [List.take_succ_cons, List.take_succ_cons, value, value, ih, List.getElem_cons_succ, hpow, Nat.mul_assoc]
    omega

/-- A bit of the number is a bit of one limb. -/
theorem testBit_value : ∀ (ws : List UInt64) (k : Nat),
    (value ws).testBit k = (ws.getD (k / 64) 0).toNat.testBit (k % 64)
  | [], k => by simp [value]
  | w :: ws, k => by
    have hadd : value (w :: ws) = 2 ^ 64 * value ws + w.toNat := by
      rw [value, Nat.add_comm]
    rw [hadd, Nat.testBit_two_pow_mul_add _ w.toNat_lt]
    split
    · rename_i hlt
      rw [Nat.div_eq_of_lt hlt, Nat.mod_eq_of_lt hlt, List.getD_cons_zero]
    · rename_i hge
      have hdiv : k / 64 = (k - 64) / 64 + 1 := by omega
      have hmod : k % 64 = (k - 64) % 64 := by omega
      rw [testBit_value ws (k - 64), hdiv, hmod, List.getD_cons_succ]

/-! ### Order -/

section Order
variable {α : Type*} [Ord α]

/-- Compares entry by entry; the first difference decides. -/
def lexCmp : List α → List α → Ordering
  | [], [] => .eq
  | [], _ :: _ => .lt
  | _ :: _, [] => .gt
  | x :: xs, y :: ys => (compare x y).then (lexCmp xs ys)

theorem lexCmp_append : ∀ {xs ys : List α} (xs' ys' : List α), xs.length = ys.length →
    lexCmp (xs ++ xs') (ys ++ ys') = (lexCmp xs ys).then (lexCmp xs' ys')
  | [], [], _, _, _ => rfl
  | x :: xs, y :: ys, xs', ys', hlen => by
    rw [List.cons_append, List.cons_append, lexCmp, lexCmp, lexCmp_append xs' ys' (Nat.succ.inj hlen),
      Ordering.then_assoc]

end Order

theorem compare_toNat (x y : UInt64) : compare x y = compare x.toNat y.toNat := by
  simp only [compare, compareOfLessAndEq, UInt64.lt_iff_toNat_lt, ← UInt64.toNat_inj]

/-- Of two numbers with a low and a high part, the high parts decide unless they are equal. -/
theorem compare_low_add {b l l' r r' : Nat} (hl : l < b) (hl' : l' < b) :
    compare (l + b * r) (l' + b * r') = (compare r r').then (compare l l') := by
  rcases Nat.lt_trichotomy r r' with h | rfl | h
  · have hle : b * r + b ≤ b * r' := Nat.mul_succ b r ▸ Nat.mul_le_mul_left b h
    have hlt : l + b * r < l' + b * r' := by omega
    rw [Nat.compare_eq_lt.mpr h, Nat.compare_eq_lt.mpr hlt]
    rfl
  · rw [Nat.compare_eq_eq.mpr rfl, Ordering.eq_then]
    rcases Nat.lt_trichotomy l l' with h | rfl | h
    · rw [Nat.compare_eq_lt.mpr h, Nat.compare_eq_lt.mpr (Nat.add_lt_add_right h _)]
    · rw [Nat.compare_eq_eq.mpr rfl, Nat.compare_eq_eq.mpr rfl]
    · rw [Nat.compare_eq_gt.mpr h, Nat.compare_eq_gt.mpr (Nat.add_lt_add_right h _)]
  · have hle : b * r' + b ≤ b * r := Nat.mul_succ b r' ▸ Nat.mul_le_mul_left b h
    have hgt : l' + b * r' < l + b * r := by omega
    rw [Nat.compare_eq_gt.mpr h, Nat.compare_eq_gt.mpr hgt]
    rfl

/-- From the top limb down, the first difference decides which number is greater. -/
theorem lexCmp_reverse : ∀ {xs ys : List UInt64}, xs.length = ys.length →
    lexCmp xs.reverse ys.reverse = compare (value xs) (value ys)
  | [], [], _ => rfl
  | x :: xs, y :: ys, hlen => by
    have hlen' : xs.reverse.length = ys.reverse.length := by
      rw [List.length_reverse, List.length_reverse, Nat.succ.inj hlen]
    have hword : lexCmp [x] [y] = compare x.toNat y.toNat := by
      rw [lexCmp, lexCmp, Ordering.then_eq, compare_toNat]
    rw [List.reverse_cons, List.reverse_cons, lexCmp_append _ _ hlen', lexCmp_reverse (Nat.succ.inj hlen), hword, value,
      value, compare_low_add x.toNat_lt y.toNat_lt]

/-! ### Shifts -/

section Shifts
variable {w : UInt64} {s : Nat}

/-- A limb shifted left: what stays in it, and what goes over into the next one. -/
theorem toNat_shiftLeft_add (hpos : 0 < s) (hs : s < 64) :
    (w <<< UInt64.ofNat s).toNat + 2 ^ 64 * (w >>> UInt64.ofNat (64 - s)).toNat = 2 ^ s * w.toNat := by
  have hsplit : (2 : Nat) ^ 64 = 2 ^ s * 2 ^ (64 - s) := by rw [← Nat.pow_add, Nat.add_sub_cancel' (Nat.le_of_lt hs)]
  rw [UInt64.toNat_shiftLeft, UInt64.toNat_shiftRight, Words.toNat_shiftAmount hs, Words.toNat_shiftAmount (by omega),
    Nat.shiftLeft_eq, Nat.shiftRight_eq_div_pow, Nat.mul_comm, hsplit, Nat.mul_mod_mul_left, Nat.mul_assoc, ← Nat.mul_add,
    Nat.mod_add_div]

theorem toNat_shiftRight_lt (hpos : 0 < s) (hs : s < 64) : (w >>> UInt64.ofNat (64 - s)).toNat < 2 ^ s := by
  have hw := w.toNat_lt
  have hsplit : (2 : Nat) ^ 64 = 2 ^ (64 - s) * 2 ^ s := by rw [← Nat.pow_add, Nat.sub_add_cancel (Nat.le_of_lt hs)]
  rw [UInt64.toNat_shiftRight, Words.toNat_shiftAmount (by omega), Nat.shiftRight_eq_div_pow]
  exact Nat.div_lt_of_lt_mul (hsplit ▸ hw)

theorem toNat_shiftLeft_le (hs : s < 64) : (w <<< UInt64.ofNat s).toNat + 2 ^ s ≤ 2 ^ 64 := by
  have hsplit : (2 : Nat) ^ 64 = 2 ^ s * 2 ^ (64 - s) := by rw [← Nat.pow_add, Nat.add_sub_cancel' (Nat.le_of_lt hs)]
  have hlt : w.toNat % 2 ^ (64 - s) + 1 ≤ 2 ^ (64 - s) := Nat.mod_lt _ (Nat.two_pow_pos _)
  rw [UInt64.toNat_shiftLeft, Words.toNat_shiftAmount hs, Nat.shiftLeft_eq, Nat.mul_comm, hsplit, Nat.mul_mod_mul_left]
  calc 2 ^ s * (w.toNat % 2 ^ (64 - s)) + 2 ^ s = 2 ^ s * (w.toNat % 2 ^ (64 - s) + 1) := (Nat.mul_succ _ _).symm
    _ ≤ 2 ^ s * 2 ^ (64 - s) := Nat.mul_le_mul_left _ hlt

theorem toNat_shiftLeft_zero : (w <<< UInt64.ofNat 0).toNat = w.toNat := by
  rw [UInt64.toNat_shiftLeft, Words.toNat_shiftAmount (by decide), Nat.shiftLeft_zero, Nat.mod_eq_of_lt w.toNat_lt]

end Shifts
end Limbs
