import CryptixMiner.Lib.Hex
import Mathlib.Data.List.Basic

/-! Numbers and bytes written with lower-case hex digits, as `{:02x}` and `{:016x}` write them, and that they are read
    back as what they were. -/

namespace Hex

/-- The last `width` digits of a number. -/
def digits : Nat → Nat → List Char
  | 0, _ => []
  | width + 1, n => digits width (n / 16) ++ [Nat.digitChar (n % 16)]

/-- `{:0width x}`, for a number of no more digits. -/
def format (width n : Nat) : String := String.ofList (digits width n)

/-- Two digits for each byte. -/
def formatBytes (bs : List UInt8) : String := String.ofList (bs.flatMap fun b => digits 2 b.toNat)

/-- The byte of an ASCII character. -/
def ascii (c : Char) : UInt8 := c.val.toUInt8

theorem bytes_ofList {l : List Char} (h : ∀ c ∈ l, c.utf8Size = 1) : bytes (String.ofList l) = l.map ascii := by
  have hlist : bytes (String.ofList l) = l.flatMap String.utf8EncodeChar := by
    rw [bytes, String.toByteArray_ofList, List.utf8Encode, List.data_toByteArray]
  rw [hlist]
  induction l with
  | nil => rfl
  | cons c l ih =>
    rw [List.flatMap_cons, List.map_cons, ih (fun d hd => h d (List.mem_cons_of_mem _ hd)) (by
      rw [bytes, String.toByteArray_ofList, List.utf8Encode, List.data_toByteArray]),
      String.utf8EncodeChar_eq_singleton (h c (List.mem_cons_self ..)), ascii, List.singleton_append]

/-! ### Digits -/

section
variable {d n width : Nat} {c : Char} {acc : UInt64} {l m : List UInt8}

theorem digit?_digitChar (hd : d < 16) : digit? (ascii (Nat.digitChar d)) = some d :=
  (by decide : ∀ d < 16, digit? (ascii (Nat.digitChar d)) = some d) d hd

theorem utf8Size_digitChar (hd : d < 16) : (Nat.digitChar d).utf8Size = 1 :=
  (by decide : ∀ d < 16, (Nat.digitChar d).utf8Size = 1) d hd

theorem exists_of_mem_digits (hc : c ∈ digits width n) : ∃ d, d < 16 ∧ c = Nat.digitChar d := by
  induction width generalizing n with
  | zero => cases hc
  | succ width ih =>
    rcases List.mem_append.mp hc with hc | hc
    · exact ih hc
    · exact ⟨n % 16, Nat.mod_lt _ (by decide), List.mem_singleton.mp hc⟩

theorem length_digits (width n : Nat) : (digits width n).length = width := by
  induction width generalizing n with
  | zero => rfl
  | succ width ih => rw [digits, List.length_append, ih, List.length_singleton]

theorem bytes_format (width n : Nat) : bytes (format width n) = (digits width n).map ascii := by
  refine bytes_ofList fun c hc => ?_
  obtain ⟨d, hd, rfl⟩ := exists_of_mem_digits hc
  exact utf8Size_digitChar hd

theorem bytes_formatBytes (bs : List UInt8) :
    bytes (formatBytes bs) = (bs.flatMap fun b => digits 2 b.toNat).map ascii := by
  refine bytes_ofList fun c hc => ?_
  obtain ⟨b, -, hc⟩ := List.mem_flatMap.mp hc
  obtain ⟨d, hd, rfl⟩ := exists_of_mem_digits hc
  exact utf8Size_digitChar hd

/-! ### Reading back -/

theorem parseDigits_append (acc : UInt64) (l m : List UInt8) :
    parseDigits acc (l ++ m) = (parseDigits acc l).bind fun acc => parseDigits acc m := by
  induction l generalizing acc with
  | nil => rfl
  | cons c l ih =>
    rw [List.cons_append, parseDigits, parseDigits]
    cases digit? c with
    | none => rfl
    | some d =>
      dsimp only
      split
      · exact ih _
      · rfl

theorem parseDigits_digits (hwidth : width ≤ 16) (hn : n < 16 ^ width) :
    parseDigits 0 ((digits width n).map ascii) = .ok (UInt64.ofNat n) := by
  induction width generalizing n with
  | zero =>
    obtain rfl : n = 0 := by simpa using hn
    rfl
  | succ width ih =>
    have hhigh : n / 16 < 16 ^ width := Nat.div_lt_of_lt_mul (by rwa [Nat.mul_comm, ← Nat.pow_succ])
    have hlow : n % 16 < 16 := Nat.mod_lt _ (by decide)
    have hsplit : n / 16 * 16 + n % 16 = n := Nat.div_add_mod' n 16
    have hsize : n < UInt64.size := Nat.lt_of_lt_of_le hn (Nat.pow_le_pow_right (by decide : 0 < 16) hwidth)
    have hacc : (UInt64.ofNat (n / 16)).toNat = n / 16 :=
      UInt64.toNat_ofNat_of_lt (Nat.lt_of_le_of_lt (Nat.div_le_self n 16) hsize)
    have hnext : UInt64.ofNat (n / 16) * 16 + UInt64.ofNat (n % 16) = UInt64.ofNat n := by
      have h16 : (16 : UInt64) = UInt64.ofNat 16 := rfl
      rw [h16, ← UInt64.ofNat_mul, ← UInt64.ofNat_add, hsplit]
    rw [digits, List.map_append, parseDigits_append, ih (by omega) hhigh, Except.bind, List.map_singleton, parseDigits,
      digit?_digitChar hlow]
    dsimp only
    rw [hacc, hsplit, if_pos hsize, parseDigits, hnext]

/-- What stands before the digits is no sign. -/
theorem parseU64_of_digit {c : UInt8} (hc : digit? c = some d) : parseU64 (c :: l) = parseDigits 0 (c :: l) := by
  have hplus : c ≠ 0x2b := by
    rintro rfl
    cases hc
  have hminus : c ≠ 0x2d := by
    rintro rfl
    cases hc
  rw [parseU64]
  · exact nofun
  · exact fun h => hplus (List.cons.inj h).1
  · exact fun h => hminus (List.cons.inj h).1
  · exact fun _ h => hplus (List.cons.inj h).1

theorem parseU64_format (hpos : 0 < width) (hwidth : width ≤ 16) (hn : n < 16 ^ width) :
    parseU64 (bytes (format width n)) = .ok (UInt64.ofNat n) := by
  have hdigits := parseDigits_digits hwidth hn
  rw [bytes_format]
  cases hl : digits width n with
  | nil =>
    have hlen := length_digits width n
    rw [hl] at hlen
    exact absurd hlen (Nat.ne_of_lt hpos)
  | cons c l =>
    obtain ⟨d, hd, rfl⟩ := exists_of_mem_digits (hl ▸ List.mem_cons_self ..)
    rw [hl] at hdigits
    rw [List.map_cons] at hdigits ⊢
    rw [parseU64_of_digit (digit?_digitChar hd), hdigits]

theorem decodePairs_formatBytes (bs : List UInt8) (index : Nat) :
    decodePairs index (bytes (formatBytes bs)) = .ok bs := by
  rw [bytes_formatBytes]
  induction bs generalizing index with
  | nil => rfl
  | cons b bs ih =>
    have hlt := b.toNat_lt
    have hhigh : b.toNat / 16 < 16 := by omega
    have hlow : b.toNat % 16 < 16 := Nat.mod_lt _ (by decide)
    have hpair : digits 2 b.toNat = [Nat.digitChar (b.toNat / 16), Nat.digitChar (b.toNat % 16)] := by
      simp only [digits, List.nil_append, Nat.mod_eq_of_lt hhigh, List.cons_append]
    have hbyte : (UInt8.ofNat (b.toNat / 16) <<< 4) ||| UInt8.ofNat (b.toNat % 16) = b := by
      have hx := toNat_ofNat_digit (digit?_digitChar hhigh)
      have hy := toNat_ofNat_digit (digit?_digitChar hlow)
      rw [← UInt8.toNat_inj, Words.toNat_nibbles (by rwa [hx]) (by rwa [hy]), hx, hy, Nat.div_add_mod]
    rw [List.flatMap_cons, hpair, List.cons_append, List.cons_append, List.nil_append, List.map_cons, List.map_cons,
      decodePairs, val, val, digit?_digitChar hhigh, digit?_digitChar hlow]
    dsimp only
    rw [ih, hbyte]

theorem length_bytes_formatBytes (bs : List UInt8) : (bytes (formatBytes bs)).length = 2 * bs.length := by
  rw [bytes_formatBytes, List.length_map]
  induction bs with
  | nil => rfl
  | cons b bs ih => rw [List.flatMap_cons, List.length_append, length_digits, ih, List.length_cons, Nat.mul_succ, Nat.add_comm]

theorem decode_formatBytes (bs : List UInt8) : decode (bytes (formatBytes bs)) = .ok bs := by
  rw [decode, length_bytes_formatBytes, if_neg (by omega), decodePairs_formatBytes]

theorem isDigit_of_mem_formatBytes {c : UInt8} {bs : List UInt8} (hc : c ∈ bytes (formatBytes bs)) : IsDigit c :=
  isDigit_of_decodePairs (decodePairs_formatBytes bs 0) c hc

end
end Hex
