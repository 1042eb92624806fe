import CryptixMiner.Lib.Hex

/-! Unsigned decimal numbers, as Rust's integers parse them. -/

namespace Decimal
open Hex (ParseIntError)

/-- The digits after those that `acc` stands for; `bound` is the first number that does not fit. -/
def parseDigits (bound acc : Nat) : List Char → Except ParseIntError Nat
  | [] => .ok acc
  | c :: cs =>
    if c.isDigit then
      let acc := 10 * acc + (c.toNat - 48)
      if acc < bound then parseDigits bound acc cs else .error .posOverflow
    else .error .invalidDigit

/-- `from_str_radix(s, 10)`: a plus sign may stand before the digits. -/
def parse (bound : Nat) : List Char → Except ParseIntError Nat
  | [] => .error .empty
  | ['+'] | ['-'] => .error .invalidDigit
  | '+' :: digits => parseDigits bound 0 digits
  | digits => parseDigits bound 0 digits

/-- One digit or more. -/
def IsNumeral (l : List Char) : Prop := l ≠ [] ∧ ∀ c ∈ l, c.isDigit = true

def value (l : List Char) : Nat := Nat.ofDigitChars 10 l 0

/-- Text that is read as `n`. -/
def Reads (l : List Char) (n : Nat) : Prop :=
  ∃ digits, (l = digits ∨ l = '+' :: digits) ∧ IsNumeral digits ∧ value digits = n

section
variable {bound acc n : Nat} {c : Char} {l digits : List Char}

theorem isNumeral_singleton (hc : c.isDigit = true) : IsNumeral [c] := by
  refine ⟨nofun, fun d hd => ?_⟩
  rw [List.mem_singleton.mp hd]
  exact hc

theorem le_ofDigitChars (l : List Char) (acc : Nat) : acc ≤ Nat.ofDigitChars 10 l acc := by
  rw [Nat.ofDigitChars_eq_ofDigitChars_zero]
  have hpow : 1 * acc ≤ 10 ^ l.length * acc := Nat.mul_le_mul_right acc (Nat.pow_pos (by decide))
  omega

theorem digit_le (h : c.isDigit = true) : c.toNat - 48 ≤ 9 := by
  rw [Char.isDigit, Bool.and_eq_true, decide_eq_true_eq, decide_eq_true_eq] at h
  have hle : c.toNat ≤ 57 := h.2
  omega

theorem value_lt (h : ∀ c ∈ l, c.isDigit = true) : value l < 10 ^ l.length := by
  unfold value
  induction l with
  | nil => exact Nat.one_pos
  | cons c cs ih =>
    have hc := digit_le (h c (List.mem_cons_self ..))
    have htail := ih fun x hx => h x (List.mem_cons_of_mem _ hx)
    have hhead := Nat.mul_le_mul_left (10 ^ cs.length) hc
    rw [Nat.ofDigitChars_cons, Nat.ofDigitChars_eq_ofDigitChars_zero, List.length_cons, Nat.pow_succ]
    have hzero : 10 * 0 + (c.toNat - '0'.toNat) = c.toNat - 48 := by
      rw [Nat.mul_zero, Nat.zero_add]
      rfl
    rw [hzero]
    omega

theorem parseDigits_eq_ok_iff (hacc : acc < bound) : parseDigits bound acc l = .ok n ↔
    (∀ c ∈ l, c.isDigit = true) ∧ Nat.ofDigitChars 10 l acc = n ∧ n < bound := by
  induction l generalizing acc with
  | nil =>
    rw [parseDigits, Except.ok.injEq, Nat.ofDigitChars_nil]
    constructor
    · rintro rfl
      exact ⟨nofun, rfl, hacc⟩
    · exact fun h => h.2.1
  | cons c cs ih =>
    rw [parseDigits, List.forall_mem_cons, Nat.ofDigitChars_cons]
    split
    · next hc =>
      dsimp only
      split
      · next hlt =>
        rw [ih hlt]
        simp only [hc, true_and]
        rfl
      · next hge =>
        refine iff_of_false nofun ?_
        rintro ⟨-, heq, hn⟩
        have hle : 10 * acc + (c.toNat - '0'.toNat) ≤ n := heq ▸ le_ofDigitChars cs _
        exact hge (Nat.lt_of_le_of_lt hle hn)
    · next hc => exact iff_of_false nofun fun h => hc h.1.1

theorem reads_plus_iff : Reads ('+' :: digits) n ↔ IsNumeral digits ∧ value digits = n := by
  constructor
  · rintro ⟨ds, heq | heq, hnum, hval⟩
    · have hplus := hnum.2 '+' (heq ▸ List.mem_cons_self ..)
      cases hplus
    · cases heq
      exact ⟨hnum, hval⟩
  · exact fun h => ⟨digits, Or.inr rfl, h⟩

theorem reads_iff_of_ne (h : ∀ digits, l ≠ '+' :: digits) : Reads l n ↔ IsNumeral l ∧ value l = n := by
  constructor
  · rintro ⟨ds, rfl | heq, hnum, hval⟩
    · exact ⟨hnum, hval⟩
    · exact absurd heq (h ds)
  · exact fun hl => ⟨l, Or.inl rfl, hl⟩

/-- What is parsed: digits, after a plus sign or not, that stand for a number that fits. -/
theorem parse_eq_ok_iff (hbound : 0 < bound) : parse bound l = .ok n ↔ Reads l n ∧ n < bound := by
  have hdigits : ∀ {digits : List Char}, digits ≠ [] → (parseDigits bound 0 digits = .ok n ↔
      (IsNumeral digits ∧ value digits = n) ∧ n < bound) := fun hne => by
    rw [parseDigits_eq_ok_iff hbound, IsNumeral, and_iff_right hne, value, and_assoc]
  unfold parse
  split
  · rw [reads_iff_of_ne (l := []) nofun]
    exact iff_of_false nofun fun h => h.1.1.1 rfl
  · rw [reads_plus_iff]
    exact iff_of_false nofun fun h => h.1.1.1 rfl
  · have hminus : ∀ digits, ['-'] ≠ '+' :: digits := fun digits h => nomatch (List.cons.inj h).1
    rw [reads_iff_of_ne hminus]
    exact iff_of_false nofun fun h => nomatch h.1.1.2 '-' (List.mem_singleton_self _)
  · next digits hne =>
    rw [reads_plus_iff]
    exact hdigits fun hnil => hne (hnil ▸ rfl)
  · next hnil _ _ hplus =>
    rw [reads_iff_of_ne hplus]
    exact hdigits hnil

end
end Decimal
