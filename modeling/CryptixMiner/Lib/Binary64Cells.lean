import CryptixMiner.Lib.Binary64
import CryptixMiner.Lib.Eager

/-! Arithmetic on binary64 numbers of full mantissas, with numbers for mantissas and exponents: what it gives for two
    operands is the result of `Float`, or nothing is said about it. Operations on numbers are written by name, as they
    are evaluated many times. -/

namespace Binary64
open Eager
open Float.Model.UnpackedFloat (Sign)

/-- A zero of either sign, or a number of exponent `e - 1587`, or a number of which nothing is known. -/
inductive Cell where
  | bad
  | zero
  | num (neg : Bool) (e m : Nat)

def signOf : Bool → Sign
  | false => .positive
  | true => .negative

/-- The mantissa is full and the exponent far from both ends. -/
structure Normal (e m : Nat) : Prop where
  full : Full m
  lo : 1024 ≤ e
  hi : e < 2048

/-- What a cell says about a number. -/
inductive Tracks : Cell → Float → Prop where
  | bad (x : Float) : Tracks .bad x
  | zero {x : Float} (sign : Sign) (h : x.toModel.unpack = .zero sign) : Tracks .zero x
  | num {x : Float} {neg : Bool} {e m : Nat} (hn : Normal e m)
      (h : x.toModel.unpack = .finite (signOf neg) m (e - 1587) hn.full.pos) : Tracks (.num neg e m) x

namespace Cell

noncomputable section Evaluation

def emit (neg : Bool) (e m : Nat) : Cell :=
  Bool.rec (motive := fun _ => Cell) .bad (.num neg e m)
    (Nat.beq (Nat.mul (Nat.shiftRight m 52) (Nat.shiftRight e 10)) 1)

/-- Rounds to the mantissa that has its 53 bits `k` places up. -/
def roundAt (neg : Bool) (P base k : Nat) : Cell :=
  emit neg (Nat.add base k) (Nat.shiftRight
    (Nat.add (Nat.add P (Nat.sub (Nat.pow 2 (Nat.pred k)) 1)) (Nat.land (Nat.shiftRight P k) 1)) k)

/-- Rounds a mantissa whose place is looked for from `k` downwards. -/
def search (neg : Bool) (P base k : Nat) : Cell :=
  Nat.rec (motive := fun _ => Cell) .bad
    (fun k next => Bool.rec (motive := fun _ => Cell) next (roundAt neg P base (Nat.succ k))
      (Nat.beq (Nat.shiftRight P (Nat.add k 53)) 1)) k

/-- The search from `k + 2` downwards; most often its first two places are enough. -/
def norm (neg : Bool) (P base k : Nat) : Cell :=
  Bool.rec (motive := fun _ => Cell)
    (Bool.rec (motive := fun _ => Cell) (search neg P base k) (roundAt neg P base (Nat.succ k))
      (Nat.beq (Nat.shiftRight P (Nat.add k 53)) 1))
    (roundAt neg P base (Nat.add k 2)) (Nat.beq (Nat.shiftRight P (Nat.add k 54)) 1)

/-- Rounds the product of two full mantissas, at one of two places. -/
def roundProduct (neg : Bool) (P base : Nat) : Cell :=
  Bool.rec (motive := fun _ => Cell)
    (emit neg (Nat.add base 52)
      (Nat.shiftRight (Nat.add (Nat.add P 2251799813685247) (Nat.land (Nat.shiftRight P 52) 1)) 52))
    (emit neg (Nat.add base 53)
      (Nat.shiftRight (Nat.add (Nat.add P 4503599627370495) (Nat.land (Nat.shiftRight P 53) 1)) 53))
    (Nat.beq (Nat.shiftRight P 105) 1)

def flip (a : Bool) : Bool := Bool.rec (motive := fun _ => Bool) true false a

def differ (a b : Bool) : Bool := Bool.rec (motive := fun _ => Bool) b (flip b) a

def mul (a b : Cell) : Cell :=
  Cell.rec (motive := fun _ => Cell) .bad
    (Cell.rec (motive := fun _ => Cell) .bad .zero (fun _ _ _ => .zero) b)
    (fun neg₁ e₁ m₁ => Cell.rec (motive := fun _ => Cell) .bad .zero
      (fun neg₂ e₂ m₂ => roundProduct (differ neg₁ neg₂) (Nat.mul m₁ m₂) (Nat.sub (Nat.add e₁ e₂) 1587)) b) a

/-- The difference of two mantissas at one exponent. -/
def subMantissas (neg₁ neg₂ : Bool) (base k A B : Nat) : Cell :=
  Bool.rec (motive := fun _ => Cell)
    (Bool.rec (motive := fun _ => Cell)
      (Bool.rec (motive := fun _ => Cell) (norm (flip neg₁) (Nat.sub B A) base k) (norm neg₁ (Nat.sub A B) base k)
        (Nat.ble B A))
      .zero (Nat.beq A B))
    (norm neg₁ (Nat.add A B) base k) (differ neg₁ neg₂)

/-- Two exponents are `d₁` and `d₂` above the smaller one. -/
def subAligned (neg₁ neg₂ : Bool) (e₁ m₁ m₂ d₁ d₂ : Nat) : Cell :=
  subMantissas neg₁ neg₂ (Nat.sub e₁ (Nat.add d₁ 54)) (Nat.add (Nat.add d₁ d₂) 53)
    (Nat.shiftLeft m₁ (Nat.add d₁ 54)) (Nat.shiftLeft m₂ (Nat.add d₂ 54))

def sub (a b : Cell) : Cell :=
  Cell.rec (motive := fun _ => Cell) .bad
    (Cell.rec (motive := fun _ => Cell) .bad .zero (fun neg e m => .num (flip neg) e m) b)
    (fun neg₁ e₁ m₁ => Cell.rec (motive := fun _ => Cell) .bad (.num neg₁ e₁ m₁)
      (fun neg₂ e₂ m₂ => subAligned neg₁ neg₂ e₁ m₁ m₂ (Nat.sub e₁ e₂) (Nat.sub e₂ e₁)) b) a

end Evaluation

noncomputable def div : Cell → Cell → Cell
  | .num neg₁ e₁ m₁, .num neg₂ e₂ m₂ =>
    bif Nat.ble m₂ m₁ then emit (differ neg₁ neg₂) (e₁ + 1535 - e₂) (roundDiv (m₁ * 2 ^ 53) (2 * m₂))
    else emit (differ neg₁ neg₂) (e₁ + 1534 - e₂) (roundDiv (m₁ * 2 ^ 53) m₂)
  | .zero, .num _ _ _ => .zero
  | _, _ => .bad

/-- Whether the absolute value is above a number; said of a cell of which nothing is known too. -/
def above (e₀ m₀ : Nat) : Cell → Bool
  | .num _ e m => bif Nat.beq e e₀ then Nat.ble (Nat.succ m₀) m else Nat.ble (Nat.succ e₀) e
  | .zero => false
  | .bad => true

noncomputable def ofByte (n : Nat) : Cell := bif Nat.beq n 0 then .zero else norm false (n * 2 ^ 54) (1587 - 54) 10

end Cell

/-! ### Rounding -/

section Tests
variable {α : Type}

theorem cond_beq (a b : Nat) (x y : α) : (bif Nat.beq a b then x else y) = if a = b then x else y := by
  cases h : Nat.beq a b with
  | true => rw [cond_true, if_pos (Nat.eq_of_beq_eq_true h)]
  | false => rw [cond_false, if_neg (Nat.ne_of_beq_eq_false h)]

theorem cond_ble (a b : Nat) (x y : α) : (bif Nat.ble a b then x else y) = if a ≤ b then x else y := by
  cases h : Nat.ble a b with
  | true => rw [cond_true, if_pos (Nat.le_of_ble_eq_true h)]
  | false => rw [cond_false, if_neg (Nat.not_le_of_not_ble_eq_true (by rw [h]; decide))]

theorem rec_beq (a b : Nat) (x y : α) :
    Bool.rec (motive := fun _ => α) y x (Nat.beq a b) = if a = b then x else y := by
  rw [← cond_beq]
  cases Nat.beq a b <;> rfl

theorem rec_ble (a b : Nat) (x y : α) :
    Bool.rec (motive := fun _ => α) y x (Nat.ble a b) = if a ≤ b then x else y := by
  rw [← cond_ble]
  cases Nat.ble a b <;> rfl

@[simp] theorem flip_eq (a : Bool) : Cell.flip a = !a := by
  cases a <;> rfl

@[simp] theorem differ_eq (a b : Bool) : Cell.differ a b = (a ^^ b) := by
  cases a <;> cases b <;> rfl

end Tests

section Emit
variable {neg : Bool} {P base e m k : Nat}

theorem full_iff_shiftRight : Full m ↔ m >>> 52 = 1 := by
  rw [Nat.shiftRight_eq_div_pow, Full]
  omega

theorem emit_eq (neg : Bool) (e m : Nat) :
    Cell.emit neg e m = .bad ∨ Normal e m ∧ Cell.emit neg e m = .num neg e m := by
  rw [Cell.emit, rec_beq]
  by_cases h : Nat.mul (Nat.shiftRight m 52) (Nat.shiftRight e 10) = 1
  · have hm : m >>> 52 = 1 := Nat.eq_one_of_mul_eq_one_right h
    have he : e >>> 10 = 1 := Nat.eq_one_of_mul_eq_one_left h
    rw [Nat.shiftRight_eq_div_pow] at he
    exact .inr ⟨⟨full_iff_shiftRight.mpr hm, by omega, by omega⟩, if_pos h⟩
  · exact .inl (if_neg h)

theorem tracks_emit {x : Float} (h : (hn : Normal e m) →
    x.toModel = Float.Model.pack (.finite (signOf neg) m (e - 1587) hn.full.pos)) : Tracks (Cell.emit neg e m) x := by
  rcases emit_eq neg e m with hbad | ⟨hn, hnum⟩
  · rw [hbad]
    exact .bad x
  · have hlo := hn.lo
    have hhi := hn.hi
    rw [hnum]
    exact .num hn (by rw [h hn, unpack_pack hn.full (by omega) (by omega)])

/-- Half of the unit less one, and the last bit that stays, carry into the quotient where it is to be rounded up. -/
theorem add_half_div (P : Nat) {H : Nat} (hH : 0 < H) :
    (P + (H - 1) + P / (2 * H) % 2) / (2 * H) = roundDiv P (2 * H) := by
  have hsplit := Nat.div_add_mod P (2 * H)
  have hlt := Nat.mod_lt P (Nat.mul_pos Nat.two_pos hH)
  have hbit := Nat.mod_two_eq_zero_or_one (P / (2 * H))
  rw [roundDiv]
  generalize P / (2 * H) = q at *
  generalize P % (2 * H) = r at *
  have hsucc : ∀ n, (n + 1) * (2 * H) = 2 * H * n + 2 * H := fun n => by rw [Nat.succ_mul, Nat.mul_comm]
  have hmul : ∀ n, n * (2 * H) = 2 * H * n := fun n => Nat.mul_comm _ _
  split
  · refine Nat.div_eq_of_lt_le ?_ ?_
    · rw [hmul]
      omega
    · rw [hsucc]
      omega
  · split
    · rcases hbit with hbit | hbit
      · rw [hbit, Nat.add_zero, Nat.add_zero]
        refine Nat.div_eq_of_lt_le ?_ ?_
        · rw [hmul]
          omega
        · rw [hsucc]
          omega
      · rw [hbit]
        refine Nat.div_eq_of_lt_le ?_ ?_
        · rw [hsucc]
          omega
        · rw [Nat.succ_mul, hsucc]
          omega
    · refine Nat.div_eq_of_lt_le ?_ ?_
      · rw [hsucc]
        omega
      · rw [Nat.succ_mul, hsucc]
        omega

theorem roundAt_eq (k : Nat) : Cell.roundAt neg P base (k + 1) =
    Cell.emit neg (base + (k + 1)) (roundDiv P (2 ^ (k + 1))) := by
  have hpow : 2 ^ (k + 1) = 2 * 2 ^ k := by rw [Nat.pow_succ, Nat.mul_comm]
  have hshift : (P + (2 ^ k - 1) + (P >>> (k + 1) &&& 1)) >>> (k + 1) = roundDiv P (2 ^ (k + 1)) := by
    rw [Nat.shiftRight_eq_div_pow, Nat.shiftRight_eq_div_pow, Nat.and_one_is_mod, hpow,
      add_half_div P (Nat.two_pow_pos k)]
  exact congrArg (Cell.emit neg (base + (k + 1))) hshift

/-- The place at which a mantissa has 53 bits. -/
theorem full_of_shiftRight (h : P >>> (k + 53) = 1) : Full (P / 2 ^ (k + 1)) := by
  have hadd : k + 53 = (k + 1) + 52 := by omega
  rw [hadd, Nat.shiftRight_add, Nat.shiftRight_eq_div_pow P] at h
  exact full_iff_shiftRight.mpr h

theorem search_eq (k : Nat) : Cell.search neg P base k = .bad ∨
    ∃ j, Full (P / 2 ^ j) ∧ Cell.search neg P base k = Cell.emit neg (base + j) (roundDiv P (2 ^ j)) := by
  induction k with
  | zero => exact .inl rfl
  | succ k ih =>
    have hstep : Cell.search neg P base (k + 1) =
        Bool.rec (motive := fun _ => Cell) (Cell.search neg P base k) (Cell.roundAt neg P base (k + 1))
          (Nat.beq (P >>> (k + 53)) 1) := rfl
    rw [hstep, rec_beq]
    by_cases h : P >>> (k + 53) = 1
    · rw [if_pos h]
      exact .inr ⟨k + 1, full_of_shiftRight h, roundAt_eq k⟩
    · rw [if_neg h]
      exact ih

theorem norm_eq (neg : Bool) (P base k : Nat) : Cell.norm neg P base k = .bad ∨
    ∃ j, Full (P / 2 ^ j) ∧ Cell.norm neg P base k = Cell.emit neg (base + j) (roundDiv P (2 ^ j)) :=
  search_eq (k + 2)

/-- Two full mantissas have a product of 105 or 106 bits. -/
theorem roundProduct_eq (neg : Bool) (P base : Nat) (hlo : 2 ^ 104 ≤ P) (hhi : P < 2 ^ 106) :
    ∃ j, Full (P / 2 ^ j) ∧ Cell.roundProduct neg P base = Cell.emit neg (base + j) (roundDiv P (2 ^ j)) := by
  have hsplit : Cell.roundProduct neg P base =
      Bool.rec (motive := fun _ => Cell) (Cell.roundAt neg P base 52) (Cell.roundAt neg P base 53)
        (Nat.beq (P >>> 105) 1) := rfl
  rw [hsplit, rec_beq, Nat.shiftRight_eq_div_pow]
  by_cases h : P / 2 ^ 105 = 1
  · rw [if_pos h]
    exact ⟨53, ⟨by omega, by omega⟩, roundAt_eq 52⟩
  · rw [if_neg h]
    exact ⟨52, ⟨by omega, by omega⟩, roundAt_eq 51⟩

end Emit

/-! ### Operations -/

section Operations
open Float.Model Float.Model.UnpackedFloat
variable {b c : Cell} {x y : Float}

theorem signOf_xor (neg₁ neg₂ : Bool) :
    signOf (neg₁ ^^ neg₂) = signOf neg₁ * signOf neg₂ ∧ signOf (neg₁ ^^ neg₂) = signOf neg₁ / signOf neg₂ := by
  cases neg₁ <;> cases neg₂ <;> exact ⟨rfl, rfl⟩

theorem signOf_not (neg : Bool) : signOf (!neg) = -signOf neg := by cases neg <;> rfl

theorem toModel_mul (x y : Float) : (x * y).toModel =
    Float.Model.pack (UnpackedFloat.mul Format.binary64 x.toModel.unpack y.toModel.unpack) := rfl

theorem toModel_sub (x y : Float) : (x - y).toModel =
    Float.Model.pack (UnpackedFloat.sub Format.binary64 x.toModel.unpack y.toModel.unpack) := rfl

theorem toModel_div (x y : Float) : (x / y).toModel =
    Float.Model.pack (UnpackedFloat.div Format.binary64 x.toModel.unpack y.toModel.unpack) := rfl

theorem tracks_pack_zero {z : Float} (sign : Sign) (h : z.toModel = Float.Model.pack (.zero sign)) : Tracks .zero z :=
  .zero sign (by rw [h, unpack_pack_zero])

theorem tracks_mul (hb : Tracks b x) (hc : Tracks c y) : Tracks (Cell.mul b c) (x * y) := by
  cases hb with
  | bad => exact .bad _
  | zero s₁ h₁ =>
    cases hc with
    | bad => exact .bad _
    | zero s₂ h₂ => exact tracks_pack_zero (s₁ * s₂) (by rw [toModel_mul, h₁, h₂]; rfl)
    | num hn₂ h₂ => exact tracks_pack_zero (s₁ * signOf _) (by rw [toModel_mul, h₁, h₂]; rfl)
  | @num _ neg₁ e₁ m₁ hn₁ h₁ =>
    cases hc with
    | bad => exact .bad _
    | zero s₂ h₂ => exact tracks_pack_zero (signOf _ * s₂) (by rw [toModel_mul, h₁, h₂]; rfl)
    | @num _ neg₂ e₂ m₂ hn₂ h₂ =>
      have hlo₁ := hn₁.lo
      have hlo₂ := hn₂.lo
      have hcell : Cell.mul (.num neg₁ e₁ m₁) (.num neg₂ e₂ m₂) =
          Cell.roundProduct (Cell.differ neg₁ neg₂) (m₁ * m₂) (e₁ + e₂ - 1587) := rfl
      have hlow : 2 ^ 52 * 2 ^ 52 ≤ m₁ * m₂ := Nat.mul_le_mul hn₁.full.1 hn₂.full.1
      have hhigh : m₁ * m₂ < 2 ^ 53 * 2 ^ 53 := Nat.mul_lt_mul'' hn₁.full.2 hn₂.full.2
      obtain ⟨j, hfull, hemit⟩ := roundProduct_eq (neg₁ ^^ neg₂) (m₁ * m₂) (e₁ + e₂ - 1587) hlow hhigh
      rw [hcell, differ_eq, hemit]
      refine tracks_emit fun hn => ?_
      have hlo := hn.lo
      have hmul : UnpackedFloat.mul Format.binary64 x.toModel.unpack y.toModel.unpack =
          roundWithAccuracy Format.binary64 (signOf neg₁ * signOf neg₂) (m₁ * m₂) ((e₁ - 1587) + (e₂ - 1587))
            .exact := by
        rw [h₁, h₂]
        rfl
      rw [toModel_mul, hmul, roundWithAccuracy_exact hfull (by omega) hn.full, (signOf_xor neg₁ neg₂).1]
      exact congrArg Float.Model.pack (finite_congr rfl (by omega) _ _)

/-- A mantissa to which 54 bits are added. -/
theorem tracks_norm {neg : Bool} {D e k : Nat} (he : 54 ≤ e)
    (hx : D ≠ 0 → x.toModel = Float.Model.pack (UnpackedFloat.round Format.binary64 (signOf neg) D (e - 1587))) :
    Tracks (Cell.norm neg (D * 2 ^ 54) (e - 54) k) x := by
  rcases norm_eq neg (D * 2 ^ 54) (e - 54) k with hbad | ⟨j, hfull, hemit⟩
  · rw [hbad]
    exact .bad _
  · rw [hemit]
    refine tracks_emit fun hn => ?_
    have hlo := hn.lo
    have hD : D ≠ 0 := by
      rintro rfl
      rw [Nat.zero_mul, Nat.zero_div] at hfull
      exact absurd hfull.pos (by decide)
    rw [hx hD, round_eq hfull (by omega) hn.full]
    exact congrArg Float.Model.pack (finite_congr rfl (by omega) _ _)

theorem normalize_apply {neg : Bool} {D : Nat} {e : Int} {z : Sign} (hD : D ≠ 0) :
    UnpackedFloat.normalize Format.binary64 ((signOf neg).apply D) e z =
      UnpackedFloat.round Format.binary64 (signOf neg) D e := by
  cases neg with
  | false =>
    have hcompare : compare (D : Int) 0 = .gt := by
      rw [compare_gt_iff_gt]
      omega
    have happly : (signOf false).apply D = (D : Int) := rfl
    rw [happly, UnpackedFloat.normalize, hcompare]
    rfl
  | true =>
    have hcompare : compare (-(D : Int)) 0 = .lt := by
      rw [compare_lt_iff_lt]
      omega
    have happly : (signOf true).apply D = -(D : Int) := rfl
    have hneg : (- -(D : Int)).toNat = D := by omega
    rw [happly, UnpackedFloat.normalize, hcompare]
    exact congrArg (UnpackedFloat.round Format.binary64 .negative · e) hneg

/-- The signed difference of two mantissas at exponent `e - 1587`. -/
theorem tracks_subMantissas {neg₁ neg₂ : Bool} {M₁ M₂ e k : Nat} (he : 54 ≤ e)
    (hx : x.toModel = Float.Model.pack (UnpackedFloat.normalize Format.binary64
      ((signOf neg₁).apply M₁ - (signOf neg₂).apply M₂) (e - 1587) .positive)) :
    Tracks (Cell.subMantissas neg₁ neg₂ (e - 54) k (M₁ * 2 ^ 54) (M₂ * 2 ^ 54)) x := by
  have hsigned : ∀ (neg : Bool) (D : Nat), (signOf neg₁).apply M₁ - (signOf neg₂).apply M₂ = (signOf neg).apply D →
      Tracks (Cell.norm neg (D * 2 ^ 54) (e - 54) k) x := by
    intro neg D hD
    refine tracks_norm he fun hne => ?_
    rw [hx, hD, normalize_apply hne]
  rw [Cell.subMantissas, rec_beq, rec_ble, differ_eq, flip_eq]
  cases hxor : neg₁ ^^ neg₂ with
  | true =>
    have hnot : neg₂ = !neg₁ := by
      cases neg₁ <;> cases neg₂ <;> simp_all
    have hadd : Nat.add (M₁ * 2 ^ 54) (M₂ * 2 ^ 54) = (M₁ + M₂) * 2 ^ 54 := (Nat.add_mul _ _ _).symm
    rw [hadd]
    refine hsigned neg₁ (M₁ + M₂) ?_
    rw [hnot]
    cases neg₁ <;> simp only [signOf, Sign.apply, Bool.not_true, Bool.not_false] <;> omega
  | false =>
    have heq : neg₂ = neg₁ := by
      cases neg₁ <;> cases neg₂ <;> simp_all
    subst heq
    dsimp only
    split
    · next hM =>
      obtain rfl : M₁ = M₂ := Nat.eq_of_mul_eq_mul_right (Nat.two_pow_pos 54) hM
      refine tracks_pack_zero .positive ?_
      rw [hx, Int.sub_self]
      rfl
    · split
      · next hle =>
        have hle' : M₂ ≤ M₁ := Nat.le_of_mul_le_mul_right hle (Nat.two_pow_pos 54)
        have hsub : Nat.sub (M₁ * 2 ^ 54) (M₂ * 2 ^ 54) = (M₁ - M₂) * 2 ^ 54 := (Nat.sub_mul _ _ _).symm
        rw [hsub]
        refine hsigned neg₂ (M₁ - M₂) ?_
        cases neg₂ <;> simp only [signOf, Sign.apply] <;> omega
      · next hle =>
        have hle' : M₁ ≤ M₂ := Nat.le_of_mul_le_mul_right (Nat.le_of_not_le hle) (Nat.two_pow_pos 54)
        have hsub : Nat.sub (M₂ * 2 ^ 54) (M₁ * 2 ^ 54) = (M₂ - M₁) * 2 ^ 54 := (Nat.sub_mul _ _ _).symm
        rw [hsub]
        refine hsigned (!neg₂) (M₂ - M₁) ?_
        cases neg₂ <;> simp only [signOf, Sign.apply, Bool.not_true, Bool.not_false] <;> omega

theorem tracks_sub (hb : Tracks b x) (hc : Tracks c y) : Tracks (Cell.sub b c) (x - y) := by
  cases hb with
  | bad => exact .bad _
  | zero s₁ h₁ =>
    cases hc with
    | bad => exact .bad _
    | zero s₂ h₂ =>
      have hsub : UnpackedFloat.sub Format.binary64 (.zero s₁) (.zero s₂) =
          .zero (if s₁ == -s₂ then s₁ else .positive) := by
        rw [UnpackedFloat.sub]
        split <;> rfl
      exact tracks_pack_zero _ (by rw [toModel_sub, h₁, h₂, hsub])
    | @num _ neg₂ e₂ m₂ hn₂ h₂ =>
      have hlo := hn₂.lo
      have hhi := hn₂.hi
      refine .num hn₂ ?_
      rw [toModel_sub, h₁, h₂, flip_eq, signOf_not]
      exact unpack_pack hn₂.full (by omega) (by omega)
  | @num _ neg₁ e₁ m₁ hn₁ h₁ =>
    have hlo₁ := hn₁.lo
    have hhi₁ := hn₁.hi
    cases hc with
    | bad => exact .bad _
    | zero s₂ h₂ =>
      refine .num hn₁ ?_
      rw [toModel_sub, h₁, h₂]
      exact unpack_pack hn₁.full (by omega) (by omega)
    | @num _ neg₂ e₂ m₂ hn₂ h₂ =>
      have hlo₂ := hn₂.lo
      have hbase : Nat.sub e₁ (Nat.add (Nat.sub e₁ e₂) 54) = min e₁ e₂ - 54 := by
        change e₁ - (e₁ - e₂ + 54) = _
        omega
      have hshift : ∀ m d, Nat.shiftLeft m (Nat.add d 54) = m <<< d * 2 ^ 54 := by
        intro m d
        change m <<< (d + 54) = _
        rw [Nat.shiftLeft_add, Nat.shiftLeft_eq _ 54]
      have hcell : Cell.sub (.num neg₁ e₁ m₁) (.num neg₂ e₂ m₂) =
          Cell.subAligned neg₁ neg₂ e₁ m₁ m₂ (Nat.sub e₁ e₂) (Nat.sub e₂ e₁) := rfl
      rw [hcell, Cell.subAligned, hbase, hshift, hshift]
      refine tracks_subMantissas (by omega) ?_
      have hmin : min ((e₁ : Int) - 1587) (e₂ - 1587) = (min e₁ e₂ : Nat) - 1587 := by omega
      have hd₁ : ((e₁ : Int) - 1587 - ((min e₁ e₂ : Nat) - 1587)).toNat = Nat.sub e₁ e₂ := by
        change _ = e₁ - e₂
        omega
      have hd₂ : ((e₂ : Int) - 1587 - ((min e₁ e₂ : Nat) - 1587)).toNat = Nat.sub e₂ e₁ := by
        change _ = e₂ - e₁
        omega
      rw [toModel_sub, h₁, h₂, UnpackedFloat.sub]
      simp only [decreaseExponent, hmin, hd₁, hd₂]

theorem divCore_eq {e₁ e₂ m₁ m₂ : Nat} (h₁ : Normal e₁ m₁) (h₂ : Normal e₂ m₂) (he : e₂ ≤ e₁ + 1021) :
    divCore Format.binary64 m₁ (e₁ - 1587) m₂ (e₂ - 1587) =
      (m₁ * 2 ^ 53 / m₂, (e₁ : Int) - e₂ - 53, accuracyOfFraction (m₁ * 2 ^ 53 % m₂) m₂) := by
  have hdiff : (e₁ : Int) - 1587 - (e₂ - 1587) = e₁ - e₂ := by omega
  have htotal : totalExponent m₁ (e₁ - 1587) - totalExponent m₂ (e₂ - 1587) = (e₁ : Int) - e₂ := by
    rw [totalExponent, totalExponent, h₁.full.log2, h₂.full.log2]
    omega
  have htarget : Format.binary64.targetExponent ((e₁ : Int) - e₂) = e₁ - e₂ - 53 := by
    simp only [Format.targetExponent, Format.mantissaBits, Format.minExponent]
    norm_num
    omega
  have hmin : min ((e₁ : Int) - e₂) (e₁ - e₂ - 53) = e₁ - e₂ - 53 := by omega
  have hshift : ((e₁ : Int) - e₂ - (e₁ - e₂ - 53)).toNat = 53 := by omega
  rw [divCore, hdiff, htotal, htarget, hmin, hshift, Nat.shiftLeft_eq]

/-- The place of the quotient of two full mantissas. -/
theorem full_div {m₁ m₂ : Nat} (h₁ : Full m₁) (h₂ : Full m₂) :
    (m₂ ≤ m₁ → Full (m₁ * 2 ^ 53 / m₂ / 2 ^ 1)) ∧ (m₁ < m₂ → Full (m₁ * 2 ^ 53 / m₂ / 2 ^ 0)) := by
  have hlo₁ := h₁.1
  have hhi₁ := h₁.2
  have hlo₂ := h₂.1
  have hhi₂ := h₂.2
  constructor
  · intro hle
    rw [Nat.div_div_eq_div_mul]
    refine ⟨(Nat.le_div_iff_mul_le (by omega)).mpr ?_, (Nat.div_lt_iff_lt_mul (by omega)).mpr ?_⟩ <;> omega
  · intro hlt
    rw [Nat.pow_zero, Nat.div_one]
    refine ⟨(Nat.le_div_iff_mul_le (by omega)).mpr ?_, (Nat.div_lt_iff_lt_mul (by omega)).mpr ?_⟩ <;> omega

/-- A quotient whose place is `k` above its last bit. -/
theorem tracks_quotient {neg₁ neg₂ : Bool} {e₁ e₂ m₁ m₂ k : Nat} (h₁ : Normal e₁ m₁) (h₂ : Normal e₂ m₂)
    (hk : k ≤ 1) (hfull : Full (m₁ * 2 ^ 53 / m₂ / 2 ^ k))
    (hx : x.toModel.unpack = .finite (signOf neg₁) m₁ (e₁ - 1587) h₁.full.pos)
    (hy : y.toModel.unpack = .finite (signOf neg₂) m₂ (e₂ - 1587) h₂.full.pos) :
    Tracks (Cell.emit (neg₁ ^^ neg₂) (e₁ + (1534 + k) - e₂) (roundDiv (m₁ * 2 ^ 53) (2 ^ k * m₂))) (x / y) := by
  refine tracks_emit fun hn => ?_
  have hlo := hn.lo
  have hhi₂ := h₂.hi
  have hdiv : UnpackedFloat.div Format.binary64 x.toModel.unpack y.toModel.unpack =
      roundWithAccuracy Format.binary64 (signOf neg₁ / signOf neg₂) (m₁ * 2 ^ 53 / m₂) ((e₁ : Int) - e₂ - 53)
        (accuracyOfFraction (m₁ * 2 ^ 53 % m₂) m₂) := by
    rw [hx, hy, UnpackedFloat.div, divCore_eq h₁ h₂ (by omega)]
  rw [toModel_div, hdiv, roundWithAccuracy_eq _ _ h₂.full.pos hfull (by omega) hn.full, (signOf_xor neg₁ neg₂).2]
  exact congrArg Float.Model.pack (finite_congr rfl (by omega) _ _)

theorem tracks_div (hb : Tracks b x) (hc : Tracks c y) : Tracks (Cell.div b c) (x / y) := by
  cases hb with
  | bad => exact .bad _
  | zero s₁ h₁ =>
    cases hc with
    | bad => exact .bad _
    | zero s₂ h₂ => exact .bad _
    | num hn₂ h₂ => exact tracks_pack_zero (s₁ / signOf _) (by rw [toModel_div, h₁, h₂]; rfl)
  | @num _ neg₁ e₁ m₁ hn₁ h₁ =>
    cases hc with
    | bad => exact .bad _
    | zero s₂ h₂ => exact .bad _
    | @num _ neg₂ e₂ m₂ hn₂ h₂ =>
      rw [Cell.div, cond_ble, differ_eq]
      split
      · next hle =>
        have h := tracks_quotient hn₁ hn₂ (Nat.le_refl 1) ((full_div hn₁.full hn₂.full).1 hle) h₁ h₂
        have hplace : 1534 + 1 = 1535 := rfl
        rwa [Nat.pow_one, hplace] at h
      · next hle =>
        have h := tracks_quotient hn₁ hn₂ (Nat.zero_le 1) ((full_div hn₁.full hn₂.full).2 (Nat.lt_of_not_le hle)) h₁ h₂
        rwa [Nat.pow_zero, Nat.one_mul, Nat.add_zero] at h

theorem abs_toModel (x : Float) : x.abs.toModel = Float.Model.pack x.toModel.unpack.abs := rfl

theorem lt_iff_compare : y < x ↔ UnpackedFloat.compare y.toModel.unpack x.toModel.unpack = some .lt := by
  have hlt : y < x ↔ decide (y.toModel < x.toModel) = true := Iff.rfl
  have hmodel : y.toModel < x.toModel ↔ (UnpackedFloat.compare y.toModel.unpack x.toModel.unpack == some .lt) = true :=
    Iff.rfl
  rw [hlt, decide_eq_true_iff, hmodel, beq_iff_eq]

/-- A number of which something is known is above a positive one in absolute value as its cell is. -/
theorem lt_abs_iff {e₀ m₀ : Nat} {hpos : 0 < m₀} (hy : y.toModel.unpack = .finite .positive m₀ (e₀ - 1587) hpos)
    (hc : Tracks c x) (hbad : c ≠ .bad) : y < x.abs ↔ c.above e₀ m₀ = true := by
  cases hc with
  | bad => exact absurd rfl hbad
  | zero sign h =>
    have habs : x.abs.toModel.unpack = .zero .positive := by
      rw [abs_toModel, h]
      exact unpack_pack_zero .positive
    have hcompare : UnpackedFloat.compare (.finite .positive m₀ (e₀ - 1587) hpos) (.zero .positive) = some .gt := rfl
    rw [lt_iff_compare, hy, habs, hcompare]
    exact iff_of_false (by decide) Bool.false_ne_true
  | @num _ neg e m hn h =>
    have hlo := hn.lo
    have hhi := hn.hi
    have habs : x.abs.toModel.unpack = .finite .positive m (e - 1587) hn.full.pos := by
      rw [abs_toModel, h]
      exact unpack_pack hn.full (by omega) (by omega)
    have hcompare : UnpackedFloat.compare (.finite .positive m₀ (e₀ - 1587) hpos)
        (.finite .positive m (e - 1587) hn.full.pos) =
        some ((compare ((e₀ : Int) - 1587) (e - 1587)).then (compare m₀ m)) := rfl
    rw [lt_iff_compare, hy, habs, hcompare, Option.some_inj, Ordering.then_eq_lt, compare_lt_iff_lt, compare_eq_iff_eq,
      compare_lt_iff_lt, Cell.above, cond_beq]
    split
    · rw [Nat.ble_eq]
      omega
    · rw [Nat.ble_eq]
      omega

theorem tracks_ofByte (n : UInt8) : Tracks (Cell.ofByte n.toNat) n.toFloat := by
  rw [Cell.ofByte, cond_beq]
  split
  · next h =>
    obtain rfl : n = 0 := UInt8.toNat_inj.mp h
    exact tracks_pack_zero .positive rfl
  · next h =>
    refine tracks_norm (by decide) fun _ => ?_
    have hmodel : n.toFloat.toModel =
        Float.Model.pack (UnpackedFloat.normalize Format.binary64 ((signOf false).apply n.toNat) 0 .positive) := rfl
    rw [hmodel, normalize_apply h]
    rfl

end Operations
end Binary64
