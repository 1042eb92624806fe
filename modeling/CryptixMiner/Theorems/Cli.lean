import CryptixMiner.Cli
import CryptixMiner.Lib.Text
import Mathlib.Algebra.Order.Field.Rat
import Mathlib.Tactic.Ring

/-! What the devfund percentage on the command line is read as. The parser knows the digits after the dot as a number,
    so that it misreads a single one, and takes a plus sign for a digit. -/

namespace CryptixMiner.Cli
open Decimal

/-! ### The parts before and after the dot -/

section
variable {s l w f : List Char} {n m : Nat} {c : Char}

/-- A part of up to two characters that is read as `n`. -/
def ReadsPart (l : List Char) (n : Nat) : Prop := Reads l n ∧ l.length ≤ 2

theorem utf8Size_of_isDigit (h : c.isDigit = true) : c.utf8Size = 1 := by
  rw [Char.isDigit, Bool.and_eq_true, decide_eq_true_eq, decide_eq_true_eq] at h
  have hle : c.val ≤ 127 := UInt32.le_trans h.2 (by decide)
  rw [Char.utf8Size_eq_one_iff]
  exact hle

/-- Digits and signs take one byte. -/
theorem len_of_reads (h : Reads l n) : len l = l.length := by
  have hdigits : ∀ {digits : List Char}, (∀ c ∈ digits, c.isDigit = true) → len digits = digits.length := by
    intro digits hd
    unfold len
    induction digits with
    | nil => rfl
    | cons c cs ih =>
      have htail := ih fun x hx => hd x (List.mem_cons_of_mem _ hx)
      rw [List.map_cons, List.sum_cons, htail, utf8Size_of_isDigit (hd c (List.mem_cons_self ..)), List.length_cons,
        Nat.add_comm]
  obtain ⟨digits, rfl | rfl, hnum, -⟩ := h
  · exact hdigits hnum.2
  · have hplus : len ('+' :: digits) = 1 + len digits := rfl
    rw [hplus, hdigits hnum.2, List.length_cons, Nat.add_comm]

theorem ReadsPart.lt (h : ReadsPart l n) : n < 100 := by
  obtain ⟨⟨digits, hl, hnum, rfl⟩, hlen⟩ := h
  have hdigits : digits.length ≤ 2 := by
    rcases hl with rfl | rfl
    · exact hlen
    · rw [List.length_cons] at hlen
      omega
  exact Nat.lt_of_lt_of_le (value_lt hnum.2) (Nat.pow_le_pow_right (by decide) hdigits)

theorem parseU16_eq_ok_iff {p : UInt16} : parseU16 l = .ok p ↔ Reads l p.toNat := by
  have hparse : ∀ n, Decimal.parse (2 ^ 16) l = .ok n ↔ Reads l n ∧ n < 2 ^ 16 := fun n => parse_eq_ok_iff (by decide)
  unfold parseU16
  constructor
  · intro h
    cases hr : Decimal.parse (2 ^ 16) l with
    | error e =>
      rw [hr] at h
      cases h
    | ok n =>
      rw [hr] at h
      cases h
      obtain ⟨hreads, hlt⟩ := (hparse n).mp hr
      rw [UInt16.toNat_ofNat', Nat.mod_eq_of_lt hlt]
      exact hreads
  · intro h
    rw [(hparse p.toNat).mpr ⟨h, p.toNat_lt⟩]
    exact congrArg Except.ok UInt16.ofNat_toNat

/-- The two checks of a part. -/
theorem readsPart_iff : ReadsPart l n ↔ len l ≤ 2 ∧ Reads l n := by
  constructor
  · exact fun h => ⟨len_of_reads h.1 ▸ h.2, h.1⟩
  · exact fun h => ⟨h.2, len_of_reads h.2 ▸ h.1⟩

theorem notMem_of_reads (h : Reads l n) : '.' ∉ l := by
  obtain ⟨digits, hl, hnum, -⟩ := h
  have hdot : '.' ∉ digits := fun hmem => nomatch hnum.2 '.' hmem
  rcases hl with rfl | rfl
  · exact hdot
  · rw [List.mem_cons, not_or]
    exact ⟨by decide, hdot⟩

theorem toNat_mul_add {pre post : UInt16} (hpre : pre.toNat < 100) (hpost : post.toNat < 100) :
    (pre * 100 + post).toNat = 100 * pre.toNat + post.toNat := by
  have h100 : (100 : UInt16).toNat = 100 := rfl
  rw [UInt16.toNat_add, UInt16.toNat_mul, h100]
  omega

theorem exists_toNat_eq (h : n < 2 ^ 16) : ∃ p : UInt16, p.toNat = n :=
  ⟨UInt16.ofNat n, UInt16.toNat_ofNat_of_lt' h⟩

theorem readParts_eq_ok_iff {v : UInt16} : readParts w f = .ok v ↔
    ∃ n m, ReadsPart w n ∧ ReadsPart f m ∧ v.toNat = 100 * n + m := by
  unfold readParts
  constructor
  · intro h
    split at h
    · cases h
    · next hlen =>
      have hw : len w ≤ 2 := Nat.not_lt.mp fun hlt => hlen (Or.inl hlt)
      have hf : len f ≤ 2 := Nat.not_lt.mp fun hlt => hlen (Or.inr hlt)
      split at h
      · cases h
      · next post hpost =>
        split at h
        · cases h
        · next pre hpre =>
          split at h
          · cases h
          · cases h
            have hwpart := readsPart_iff.mpr ⟨hw, parseU16_eq_ok_iff.mp hpre⟩
            have hfpart := readsPart_iff.mpr ⟨hf, parseU16_eq_ok_iff.mp hpost⟩
            refine ⟨pre.toNat, post.toNat, hwpart, hfpart, ?_⟩
            rw [toNat_mul_add hwpart.lt hfpart.lt]
  · rintro ⟨n, m, hw, hf, hv⟩
    obtain ⟨pre, rfl⟩ := exists_toNat_eq (Nat.lt_trans hw.lt (by decide))
    obtain ⟨post, rfl⟩ := exists_toNat_eq (Nat.lt_trans hf.lt (by decide))
    have hlen : ¬(len w > 2 ∨ len f > 2) :=
      not_or.mpr ⟨Nat.not_lt.mpr (readsPart_iff.mp hw).1, Nat.not_lt.mpr (readsPart_iff.mp hf).1⟩
    have hlt : ¬(pre ≥ 100 ∨ post ≥ 100) :=
      not_or.mpr ⟨UInt16.not_le.mpr (UInt16.lt_iff_toNat_lt.mpr hw.lt),
        UInt16.not_le.mpr (UInt16.lt_iff_toNat_lt.mpr hf.lt)⟩
    rw [if_neg hlen, parseU16_eq_ok_iff.mpr hf.1, parseU16_eq_ok_iff.mpr hw.1]
    dsimp only
    rw [if_neg hlt]
    congr 1
    exact UInt16.toNat_inj.mp ((toNat_mul_add hw.lt hf.lt).trans hv.symm)

end

/-! ### The text -/

/-- What the parser reads: a part, or two parts at a dot. -/
theorem parseDevfundPercent_eq_ok_iff {s : String} {v : UInt16} : parseDevfundPercent s = .ok v ↔
    (∃ n, ReadsPart s.toList n ∧ v.toNat = 100 * n) ∨
      ∃ w f n m, s.toList = w ++ '.' :: f ∧ ReadsPart w n ∧ ReadsPart f m ∧ v.toNat = 100 * n + m := by
  have hzero : ∀ m, ReadsPart ['0'] m ↔ m = 0 := by
    intro m
    rw [ReadsPart, reads_iff_of_ne (l := ['0']) (fun digits h => nomatch (List.cons.inj h).1)]
    constructor
    · exact fun h => h.1.2.symm
    · rintro rfl
      exact ⟨⟨isNumeral_singleton rfl, rfl⟩, by decide⟩
  constructor
  · intro h
    have hsplit : ['.'].intercalate (s.toList.splitOn '.') = s.toList := List.intercalate_splitOn '.'
    unfold parseDevfundPercent at h
    split at h
    · cases h
    · next pre heq =>
      rw [heq] at hsplit
      obtain ⟨n, m, hw, hf, hv⟩ := readParts_eq_ok_iff.mp h
      have hs : pre = s.toList := by simpa using hsplit
      rw [(hzero m).mp hf, Nat.add_zero] at hv
      exact Or.inl ⟨n, hs ▸ hw, hv⟩
    · next pre post heq =>
      rw [heq] at hsplit
      obtain ⟨n, m, hw, hf, hv⟩ := readParts_eq_ok_iff.mp h
      have hs : pre ++ '.' :: post = s.toList := by simpa [List.intercalate] using hsplit
      exact Or.inr ⟨pre, post, n, m, hs.symm, hw, hf, hv⟩
    · cases h
  · unfold parseDevfundPercent
    rintro (⟨n, hw, hv⟩ | ⟨w, f, n, m, hs, hw, hf, hv⟩)
    · rw [List.splitOn_eq_singleton (notMem_of_reads hw.1)]
      exact readParts_eq_ok_iff.mpr ⟨n, 0, hw, (hzero 0).mpr rfl, hv⟩
    · rw [hs, List.splitOn_append_cons_self, List.splitOn_eq_singleton (notMem_of_reads hw.1),
        List.splitOn_eq_singleton (notMem_of_reads hf.1)]
      exact readParts_eq_ok_iff.mpr ⟨n, m, hw, hf, hv⟩

/-- A percentage is below 100, out of 10000. -/
theorem parseDevfundPercent_lt {s : String} {v : UInt16} (h : parseDevfundPercent s = .ok v) : v.toNat < 10000 := by
  rcases parseDevfundPercent_eq_ok_iff.mp h with ⟨n, hw, hv⟩ | ⟨w, f, n, m, -, hw, hf, hv⟩
  · have hn := hw.lt
    omega
  · have hn := hw.lt
    have hm := hf.lt
    omega

/-! ### The meaning -/

/-- One or two digits. -/
def IsPart (l : List Char) : Prop := IsNumeral l ∧ l.length ≤ 2

/-- The text is one or two digits, with a dot and one or two digits after them or without, and is the decimal number
    `x`. -/
inductive Denotes : List Char → ℚ → Prop where
  | whole {w : List Char} : IsPart w → Denotes w (value w)
  | fraction {w f : List Char} : IsPart w → IsPart f → Denotes (w ++ '.' :: f) (value w + value f / 10 ^ f.length)

/-- The parser accepts the text just when it is in the grammar, and then with its value out of 10000. -/
def ReadsDecimal (s : String) : Prop :=
  ∀ v, parseDevfundPercent s = .ok v ↔ ∃ x, Denotes s.toList x ∧ (v.toNat : ℚ) = 100 * x

/-- A plus sign and a digit. -/
def IsSigned (l : List Char) : Prop := ∃ d : Char, l = ['+', d] ∧ d.isDigit = true

/-- A part with a sign, or a single digit other than 0 after the dot. -/
inductive Misread : List Char → Prop where
  | whole {w : List Char} : IsSigned w → Misread w
  | before {w f : List Char} : IsSigned w → IsPart f ∨ IsSigned f → Misread (w ++ '.' :: f)
  | after {w f : List Char} : IsPart w → IsSigned f → Misread (w ++ '.' :: f)
  | tenths {w : List Char} {d : Char} : IsPart w → d.isDigit = true → d ≠ '0' → Misread (w ++ ['.', d])

section
variable {s l w f : List Char} {n m : Nat} {x : ℚ}

theorem readsPart_cases (h : ReadsPart l n) : (IsPart l ∧ n = value l) ∨ IsSigned l := by
  obtain ⟨⟨digits, rfl | rfl, hnum, hval⟩, hlen⟩ := h
  · exact Or.inl ⟨⟨hnum, hlen⟩, hval.symm⟩
  · right
    match digits, hnum with
    | [d], hnum => exact ⟨d, rfl, hnum.2 d (List.mem_singleton_self _)⟩
    | [], hnum => exact absurd rfl hnum.1
    | _ :: _ :: _, _ => simp at hlen

theorem IsPart.readsPart (h : IsPart l) : ReadsPart l (value l) := ⟨⟨l, Or.inl rfl, h.1, rfl⟩, h.2⟩

theorem IsSigned.readsPart (h : IsSigned l) : ∃ n, ReadsPart l n := by
  obtain ⟨d, rfl, hd⟩ := h
  exact ⟨value [d], ⟨[d], Or.inr rfl, isNumeral_singleton hd, rfl⟩, Nat.le_refl _⟩

theorem isPart_singleton {d : Char} (hd : d.isDigit = true) : IsPart [d] :=
  ⟨isNumeral_singleton hd, Nat.le_succ 1⟩

theorem IsPart.notMem_plus (h : IsPart l) : '+' ∉ l := fun hmem => nomatch h.1.2 '+' hmem

theorem IsSigned.mem_plus (h : IsSigned l) : '+' ∈ l := by
  obtain ⟨d, rfl, -⟩ := h
  exact List.mem_cons_self ..

theorem Denotes.notMem_plus (h : Denotes l x) : '+' ∉ l := by
  cases h with
  | whole hw => exact hw.notMem_plus
  | fraction hw hf =>
    rw [List.mem_append, List.mem_cons, not_or, not_or]
    exact ⟨hw.notMem_plus, by decide, hf.notMem_plus⟩

/-- Where the dot is known, so is the number. -/
theorem Denotes.at_dot (h : Denotes l x) (hl : l = w ++ '.' :: f) (hw : '.' ∉ w) :
    x = value w + value f / 10 ^ f.length := by
  cases h with
  | whole hpart =>
    have hmem : '.' ∈ l := by
      rw [hl]
      exact List.mem_append_right _ (List.mem_cons_self ..)
    exact absurd hmem (notMem_of_reads hpart.readsPart.1)
  | fraction hw' hf' =>
    obtain ⟨rfl, rfl⟩ := Text.append_cons_inj (notMem_of_reads hw'.readsPart.1) hw hl
    rfl

/-- The digits after the dot count as hundredths when there are two of them, or when they are 0. -/
theorem hundred_mul (hf : f.length = 2 ∨ value f = 0) (a : Nat) :
    100 * ((a : ℚ) + value f / 10 ^ f.length) = ((100 * a + value f : Nat) : ℚ) := by
  push_cast
  rcases hf with hlen | hzero
  · rw [hlen]
    ring
  · rw [hzero]
    ring

theorem value_singleton_eq_zero {d : Char} (hd : d.isDigit = true) (h : value [d] = 0) : d = '0' := by
  have hvalue : value [d] = d.toNat - 48 := by
    rw [value, Nat.ofDigitChars_cons, Nat.ofDigitChars_nil, Nat.mul_zero, Nat.zero_add]
    rfl
  have hge := (Text.toNat_of_isDigit hd).1
  rw [hvalue] at h
  exact Char.toNat_inj.mp (Nat.le_antisymm (Nat.sub_eq_zero_iff_le.mp h) hge)

/-- A single digit counts as tenths. -/
theorem hundred_mul_tenths {d : Char} (a : Nat) :
    100 * ((a : ℚ) + value [d] / 10 ^ [d].length) = ((100 * a + 10 * value [d] : Nat) : ℚ) := by
  push_cast
  rw [List.length_singleton]
  ring

end

section
variable {s : String} {w f : List Char} {n m : Nat}

/-- Two readable parts at a dot are read. -/
theorem exists_ok_of_parts (hs : s.toList = w ++ '.' :: f) (hw : ReadsPart w n) (hf : ReadsPart f m) :
    ∃ v, parseDevfundPercent s = .ok v ∧ v.toNat = 100 * n + m := by
  have hn := hw.lt
  have hm := hf.lt
  obtain ⟨v, hv⟩ := exists_toNat_eq (n := 100 * n + m) (by omega)
  exact ⟨v, parseDevfundPercent_eq_ok_iff.mpr (Or.inr ⟨w, f, n, m, hs, hw, hf, hv⟩), hv⟩

theorem exists_ok_of_part (hw : ReadsPart s.toList n) : ∃ v, parseDevfundPercent s = .ok v := by
  have hn := hw.lt
  obtain ⟨v, hv⟩ := exists_toNat_eq (n := 100 * n) (by omega)
  exact ⟨v, parseDevfundPercent_eq_ok_iff.mpr (Or.inl ⟨n, hw, hv⟩)⟩

/-- Text with a plus sign is read, but is no decimal number. -/
theorem not_readsDecimal_of_plus {v : UInt16} (hv : parseDevfundPercent s = .ok v) (hplus : '+' ∈ s.toList) :
    ¬ReadsDecimal s := fun h => by
  obtain ⟨x, hx, -⟩ := (h v).mp hv
  exact hx.notMem_plus hplus

theorem not_readsDecimal_of_misread (h : Misread s.toList) : ¬ReadsDecimal s := by
  generalize hs : s.toList = l at h
  cases h with
  | whole hw =>
    obtain ⟨n, hread⟩ := hw.readsPart
    obtain ⟨v, hv⟩ := exists_ok_of_part (hs ▸ hread)
    exact not_readsDecimal_of_plus hv (hs ▸ hw.mem_plus)
  | before hw hf =>
    obtain ⟨n, hwread⟩ := hw.readsPart
    obtain ⟨m, hfread⟩ : ∃ m, ReadsPart _ m := hf.elim (fun hf => ⟨_, hf.readsPart⟩) IsSigned.readsPart
    obtain ⟨v, hv, -⟩ := exists_ok_of_parts hs hwread hfread
    exact not_readsDecimal_of_plus hv (hs ▸ List.mem_append_left _ hw.mem_plus)
  | after hw hf =>
    obtain ⟨m, hfread⟩ := hf.readsPart
    obtain ⟨v, hv, -⟩ := exists_ok_of_parts hs hw.readsPart hfread
    exact not_readsDecimal_of_plus hv (hs ▸ List.mem_append_right _ (List.mem_cons_of_mem _ hf.mem_plus))
  | @tenths w d hw hd hne =>
    have hf : IsPart [d] := isPart_singleton hd
    obtain ⟨v, hv, hval⟩ := exists_ok_of_parts hs hw.readsPart hf.readsPart
    intro h
    obtain ⟨x, hx, hvx⟩ := (h v).mp hv
    rw [hx.at_dot hs (notMem_of_reads hw.readsPart.1), hundred_mul_tenths, Nat.cast_inj, hval] at hvx
    exact hne (value_singleton_eq_zero hd (by omega))

theorem readsDecimal_of_not_misread (h : ¬Misread s.toList) : ReadsDecimal s := by
  have hundredths : ∀ {w f : List Char}, s.toList = w ++ '.' :: f → IsPart w → IsPart f →
      f.length = 2 ∨ value f = 0 := by
    intro w f hs hw hf
    match f, hf with
    | [d], hf =>
      have hd := hf.1.2 d (List.mem_singleton_self _)
      by_cases hzero : d = '0'
      · exact Or.inr (hzero ▸ rfl)
      · exact absurd (hs ▸ Misread.tenths hw hd hzero) h
    | [_, _], _ => exact Or.inl rfl
    | [], hf => exact absurd rfl hf.1.1
    | _ :: _ :: _ :: _, hf => exact absurd hf.2 (by simp)
  intro v
  constructor
  · intro hv
    rcases parseDevfundPercent_eq_ok_iff.mp hv with ⟨n, hw, hval⟩ | ⟨w, f, n, m, hs, hw, hf, hval⟩
    · rcases readsPart_cases hw with ⟨hpart, rfl⟩ | hsigned
      · refine ⟨_, .whole hpart, ?_⟩
        rw [hval]
        push_cast
        rfl
      · exact absurd (.whole hsigned) h
    · rcases readsPart_cases hw with ⟨hwpart, rfl⟩ | hsigned
      · rcases readsPart_cases hf with ⟨hfpart, rfl⟩ | hsigned
        · rw [hs]
          refine ⟨_, .fraction hwpart hfpart, ?_⟩
          rw [hundred_mul (hundredths hs hwpart hfpart), hval]
        · exact absurd (hs ▸ .after hwpart hsigned) h
      · rcases readsPart_cases hf with ⟨hfpart, -⟩ | hsigned'
        · exact absurd (hs ▸ .before hsigned (Or.inl hfpart)) h
        · exact absurd (hs ▸ .before hsigned (Or.inr hsigned')) h
  · rintro ⟨x, hx, hval⟩
    generalize hs : s.toList = l at hx
    cases hx with
    | whole hw =>
      have hv : v.toNat = 100 * value l := by exact_mod_cast hval
      exact parseDevfundPercent_eq_ok_iff.mpr (Or.inl ⟨_, hs ▸ hw.readsPart, hs ▸ hv⟩)
    | @fraction w f hw hf =>
      rw [hundred_mul (hundredths hs hw hf), Nat.cast_inj] at hval
      exact parseDevfundPercent_eq_ok_iff.mpr (Or.inr ⟨w, f, _, _, hs, hw.readsPart, hf.readsPart, hval⟩)

end

/-- The parser reads the decimal number, but for signs and single digits after the dot. -/
theorem readsDecimal_iff (s : String) : ReadsDecimal s ↔ ¬Misread s.toList :=
  ⟨fun h hmis => not_readsDecimal_of_misread hmis h, readsDecimal_of_not_misread⟩

/-- `1.5` is read as 1.05 per cent. -/
theorem not_readsDecimal : ¬∀ s, ReadsDecimal s := by
  intro h
  have hmis : Misread "1.5".toList := .tenths (w := ['1']) (d := '5') (isPart_singleton rfl) rfl (by decide)
  exact not_readsDecimal_of_misread hmis (h "1.5")

end CryptixMiner.Cli
