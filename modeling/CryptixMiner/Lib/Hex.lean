import CryptixMiner.Lib.Words

/-! Texts as bytes, and the numbers that hex digits stand for. -/

namespace Hex

/-- The UTF-8 bytes of a text. -/
def bytes (s : String) : List UInt8 := s.toByteArray.data.toList

/-- The value of an ASCII hex digit of either case. -/
def digit? (c : UInt8) : Option Nat :=
  if 48 ≤ c.toNat ∧ c.toNat ≤ 57 then some (c.toNat - 48)
  else if 97 ≤ c.toNat ∧ c.toNat ≤ 102 then some (c.toNat - 87)
  else if 65 ≤ c.toNat ∧ c.toNat ≤ 70 then some (c.toNat - 55)
  else none

theorem digit?_lt {c : UInt8} {d : Nat} (h : digit? c = some d) : d < 16 := by
  unfold digit? at h
  split at h
  · cases h
    omega
  · split at h
    · cases h
      omega
    · split at h
      · cases h
        omega
      · cases h

/-! ### Parsing a 64-bit number -/

inductive ParseIntError where
  | empty
  | invalidDigit
  | posOverflow
  deriving DecidableEq, Repr

/-- The digits after those that `acc` stands for. -/
def parseDigits (acc : UInt64) : List UInt8 → Except ParseIntError UInt64
  | [] => .ok acc
  | c :: cs =>
    match digit? c with
    | none => .error .invalidDigit
    | some d => if acc.toNat * 16 + d < UInt64.size then parseDigits (acc * 16 + UInt64.ofNat d) cs else .error .posOverflow

/-- `u64::from_str_radix(s, 16)`: a plus sign may stand before the digits. -/
def parseU64 : List UInt8 → Except ParseIntError UInt64
  | [] => .error .empty
  | [0x2b] | [0x2d] => .error .invalidDigit
  | 0x2b :: digits => parseDigits 0 digits
  | digits => parseDigits 0 digits

/-! ### Decoding pairs of digits -/

inductive FromHexError where
  | oddLength
  | invalidHexCharacter (c : UInt8) (index : Nat)
  | invalidStringLength
  deriving DecidableEq, Repr

/-- The digit at an index. -/
def val (c : UInt8) (index : Nat) : Except FromHexError UInt8 :=
  match digit? c with
  | some d => .ok (UInt8.ofNat d)
  | none => .error (.invalidHexCharacter c index)

/-- One byte for each two digits, the first one in the upper half; `index` counts the digits before. -/
def decodePairs (index : Nat) : List UInt8 → Except FromHexError (List UInt8)
  | [] => .ok []
  | [_] => .error .oddLength
  | hi :: lo :: rest =>
    match val hi index, val lo (index + 1) with
    | .error e, _ => .error e
    | _, .error e => .error e
    | .ok h, .ok l =>
      match decodePairs (index + 2) rest with
      | .error e => .error e
      | .ok bytes => .ok (((h <<< 4) ||| l) :: bytes)

/-- `hex::decode`: the length is checked before any digit. -/
def decode (data : List UInt8) : Except FromHexError (List UInt8) :=
  if data.length % 2 = 1 then .error .oddLength else decodePairs 0 data

/-! ### What a pair of digits tells -/

def IsDigit (c : UInt8) : Prop := (digit? c).isSome = true

instance (c : UInt8) : Decidable (IsDigit c) := inferInstanceAs (Decidable (_ = true))

/-- `to_ascii_lowercase`. -/
def lower (c : UInt8) : UInt8 := if 65 ≤ c.toNat ∧ c.toNat ≤ 90 then c + 32 else c

/-- The byte of each pair of digits; what is no digit counts as 0. -/
def pack : List UInt8 → List UInt8
  | hi :: lo :: rest => ((UInt8.ofNat ((digit? hi).getD 0) <<< 4) ||| UInt8.ofNat ((digit? lo).getD 0)) :: pack rest
  | _ => []

/-- Up to its case, a digit is determined by its value. -/
theorem lower_of_digit? {c : UInt8} {d : Nat} (h : digit? c = some d) :
    lower c = UInt8.ofNat (if d < 10 then 48 + d else 87 + d) := by
  have hlt := c.toNat_lt
  unfold digit? at h
  unfold lower
  rw [← UInt8.toNat_inj]
  split at h
  · cases h
    rw [if_neg (by omega), if_pos (by omega), UInt8.toNat_ofNat']
    omega
  · split at h
    · cases h
      rw [if_neg (by omega), if_neg (by omega), UInt8.toNat_ofNat']
      omega
    · split at h
      · cases h
        rw [if_pos (by omega), if_neg (by omega), UInt8.toNat_ofNat', UInt8.toNat_add]
        simp only [UInt8.reduceToNat]
        omega
      · cases h

theorem decodePairs_eq : ∀ {l : List UInt8} (index : Nat), (∀ c ∈ l, IsDigit c) → l.length % 2 = 0 →
    decodePairs index l = .ok (pack l)
  | [], _, _, _ => rfl
  | [_], _, _, heven => nomatch heven
  | hi :: lo :: rest, index, hdigits, heven => by
    obtain ⟨h, hh⟩ := Option.isSome_iff_exists.mp (hdigits hi (by simp))
    obtain ⟨l, hl⟩ := Option.isSome_iff_exists.mp (hdigits lo (by simp))
    have hrest := decodePairs_eq (l := rest) (index + 2) (fun c hc => hdigits c (by simp [hc]))
      (by simp only [List.length_cons] at heven; omega)
    simp only [decodePairs, val, hh, hl, hrest, pack, Option.getD_some]

/-- Only pairs of digits are decoded. -/
theorem isDigit_of_decodePairs : ∀ {l : List UInt8} {index : Nat} {bytes : List UInt8}, decodePairs index l = .ok bytes →
    ∀ c ∈ l, IsDigit c
  | [], _, _, _ => nofun
  | [_], _, _, h => nomatch h
  | hi :: lo :: rest, index, bytes, h => by
    simp only [decodePairs, val] at h
    cases hhi : digit? hi with
    | none => simp [hhi] at h
    | some d =>
      cases hlo : digit? lo with
      | none => simp [hhi, hlo] at h
      | some e =>
        cases hrest : decodePairs (index + 2) rest with
        | error e => simp [hhi, hlo, hrest] at h
        | ok tail =>
          intro c hc
          rcases List.mem_cons.mp hc with rfl | hc
          · exact Option.isSome_of_mem hhi
          rcases List.mem_cons.mp hc with rfl | hc
          · exact Option.isSome_of_mem hlo
          · exact isDigit_of_decodePairs hrest c hc

theorem length_pack : ∀ l : List UInt8, (pack l).length = l.length / 2
  | [] => rfl
  | [_] => by simp [pack]
  | hi :: lo :: rest => by
    have hrest := length_pack rest
    simp only [pack, List.length_cons]
    omega

theorem toNat_ofNat_digit {c : UInt8} {d : Nat} (h : digit? c = some d) : (UInt8.ofNat d).toNat = d := by
  have hlt := digit?_lt h
  rw [UInt8.toNat_ofNat']
  omega

/-- Equal bytes come from the same digits, up to their case. -/
theorem map_lower_of_pack : ∀ {l m : List UInt8}, (∀ c ∈ l, IsDigit c) → (∀ c ∈ m, IsDigit c) →
    l.length % 2 = 0 → m.length % 2 = 0 → pack l = pack m → l.map lower = m.map lower
  | [], [], _, _, _, _, _ => rfl
  | [_], _, _, _, heven, _, _ => nomatch heven
  | _, [_], _, _, _, heven, _ => nomatch heven
  | [], _ :: _ :: _, _, _, _, _, h => nomatch h
  | _ :: _ :: _, [], _, _, _, _, h => nomatch h
  | hi :: lo :: l, hi' :: lo' :: m, hl, hm, heven, heven', h => by
    obtain ⟨a, ha⟩ := Option.isSome_iff_exists.mp (hl hi (by simp))
    obtain ⟨b, hb⟩ := Option.isSome_iff_exists.mp (hl lo (by simp))
    obtain ⟨a', ha'⟩ := Option.isSome_iff_exists.mp (hm hi' (by simp))
    obtain ⟨b', hb'⟩ := Option.isSome_iff_exists.mp (hm lo' (by simp))
    simp only [pack, ha, hb, ha', hb', Option.getD_some, List.cons.injEq] at h
    have hlt : ∀ {c : UInt8} {d : Nat}, digit? c = some d → (UInt8.ofNat d).toNat < 16 := fun hd => by
      rw [toNat_ofNat_digit hd]
      exact digit?_lt hd
    obtain ⟨hhi, hlo⟩ := Words.nibbles_inj (hlt ha) (hlt hb) (hlt ha') (hlt hb') h.1
    have haa : a = a' := by rw [← toNat_ofNat_digit ha, hhi, toNat_ofNat_digit ha']
    have hbb : b = b' := by rw [← toNat_ofNat_digit hb, hlo, toNat_ofNat_digit hb']
    have hrest := map_lower_of_pack (l := l) (m := m) (fun c hc => hl c (by simp [hc])) (fun c hc => hm c (by simp [hc]))
      (by simp only [List.length_cons] at heven; omega) (by simp only [List.length_cons] at heven'; omega) h.2
    simp only [List.map_cons, hrest, lower_of_digit? ha, lower_of_digit? hb, lower_of_digit? ha', lower_of_digit? hb',
      haa, hbb]

end Hex
