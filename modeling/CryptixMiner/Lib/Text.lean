import Mathlib.Data.List.Infix

/-! Texts as lists of characters, with the functions of `str` on them. -/

namespace Text

/-- The characters with the property `White_Space`. -/
def isWhitespace (c : Char) : Bool :=
  (9 ≤ c.toNat && c.toNat ≤ 13) || c.toNat == 0x20 || c.toNat == 0x85 || c.toNat == 0xa0 || c.toNat == 0x1680 ||
    (0x2000 ≤ c.toNat && c.toNat ≤ 0x200a) || c.toNat == 0x2028 || c.toNat == 0x2029 || c.toNat == 0x202f ||
    c.toNat == 0x205f || c.toNat == 0x3000

def trimStart (l : List Char) : List Char := l.dropWhile isWhitespace

def trim (l : List Char) : List Char := (trimStart (trimStart l).reverse).reverse

/-- The place of the first `c`. -/
def find (c : Char) (l : List Char) : Option Nat := l.findIdx? (· == c)

/-- The place of the last `c`. -/
def rfind (c : Char) (l : List Char) : Option Nat := (l.reverse.findIdx? (· == c)).map fun i => l.length - 1 - i

/-- `&l[start..stop]`. -/
def slice (l : List Char) (start stop : Nat) : List Char := (l.take stop).drop start

/-- What stands behind the first `c`. -/
def afterFirst (c : Char) (l : List Char) : Option (List Char) :=
  match l.dropWhile (· != c) with
  | [] => none
  | _ :: rest => some rest

/-- `split_whitespace().next()`, without a word nothing. -/
def firstWord (l : List Char) : List Char := (trimStart l).takeWhile fun c => !isWhitespace c

/-- `to_ascii_lowercase`. -/
def toAsciiLowercase (l : List Char) : List Char := l.map Char.toLower

/-- The number in decimal. -/
def decimal (n : Nat) : List Char := Nat.toDigits 10 n

/-- `haystack.contains(needle)`. -/
def contains (haystack needle : List Char) : Bool := decide (needle <:+: haystack)

/-! ### Facts -/

section
variable {c : Char} {l xs ys : List Char} {m n : Nat}

theorem trim_of_ends (hhead : ∀ c ∈ l.head?, isWhitespace c = false) (hlast : ∀ c ∈ l.getLast?, isWhitespace c = false) :
    trim l = l := by
  have hstart : ∀ {l : List Char}, (∀ c ∈ l.head?, isWhitespace c = false) → trimStart l = l := fun {l} h => by
    cases l with
    | nil => rfl
    | cons c l => exact List.dropWhile_cons_of_neg (by rw [h c rfl]; exact Bool.false_ne_true)
  have hrev : ∀ c ∈ l.reverse.head?, isWhitespace c = false := by rwa [List.head?_reverse]
  rw [trim, hstart hhead, hstart hrev, List.reverse_reverse]

theorem last_of_trim (h : trim l = l) : ∀ c ∈ l.getLast?, isWhitespace c = false := fun c hc => by
  have hhead := List.head?_dropWhile_not isWhitespace (trimStart l).reverse
  have hrev : (trimStart l).reverse.dropWhile isWhitespace = l.reverse := by
    rw [← List.reverse_reverse ((trimStart l).reverse.dropWhile isWhitespace)]
    exact congrArg List.reverse h
  rw [hrev, List.head?_reverse, Option.mem_def.mp hc] at hhead
  exact hhead

theorem find_eq (hc : c ∉ xs) : find c (xs ++ c :: ys) = some xs.length := by
  induction xs with
  | nil => simp [find, List.findIdx?_cons]
  | cons x xs ih =>
    obtain ⟨hx, hxs⟩ := not_or.mp (mt List.mem_cons.mpr hc)
    have hne : (x == c) = false := beq_false_of_ne (Ne.symm hx)
    rw [find] at ih ⊢
    rw [List.cons_append, List.findIdx?_cons, hne, ih hxs]
    simp

theorem find_eq_none (hc : c ∉ l) : find c l = none := by
  rw [find, List.findIdx?_eq_none_iff]
  exact fun x hx => beq_false_of_ne fun h => hc (h ▸ hx)

theorem rfind_eq (hc : c ∉ ys) : rfind c (xs ++ c :: ys) = some xs.length := by
  have hfind : find c (ys.reverse ++ c :: xs.reverse) = some ys.reverse.length := find_eq (mt List.mem_reverse.mp hc)
  rw [find] at hfind
  rw [rfind, List.reverse_append, List.reverse_cons, List.append_assoc, List.singleton_append, hfind, Option.map_some,
    List.length_append, List.length_cons, List.length_reverse]
  congr 1
  omega

theorem afterFirst_eq (hc : c ∉ xs) : afterFirst c (xs ++ c :: ys) = some ys := by
  have hdrop : (xs ++ c :: ys).dropWhile (· != c) = c :: ys := by
    induction xs with
    | nil => simp
    | cons x xs ih =>
      obtain ⟨hx, hxs⟩ := not_or.mp (mt List.mem_cons.mpr hc)
      rw [List.cons_append, List.dropWhile_cons_of_pos (by simpa using Ne.symm hx), ih hxs]
  rw [afterFirst, hdrop]

/-- What stands between a `c` and a tail. -/
theorem slice_eq (zs : List Char) : slice (xs ++ c :: (ys ++ zs)) (xs.length + 1) (xs ++ c :: ys).length = ys := by
  have hsplit : xs ++ c :: (ys ++ zs) = (xs ++ c :: ys) ++ zs := by simp
  have hsplit' : xs ++ c :: ys = (xs ++ [c]) ++ ys := by simp
  rw [slice, hsplit, List.take_left, hsplit', List.drop_left']
  simp

theorem firstWord_eq (hxs : ∀ x ∈ xs, isWhitespace x = false) (hne : xs ≠ []) (hc : isWhitespace c = true) :
    firstWord (xs ++ c :: ys) = xs := by
  obtain ⟨x, xs, rfl⟩ := List.exists_cons_of_ne_nil hne
  have hx : ¬isWhitespace x = true := by rw [hxs x List.mem_cons_self]; exact Bool.false_ne_true
  rw [firstWord, trimStart, List.cons_append, List.dropWhile_cons_of_neg hx, ← List.cons_append,
    List.takeWhile_append_of_pos (fun y hy => by rw [hxs y hy]; rfl),
    List.takeWhile_cons_of_neg (by rw [hc]; exact Bool.false_ne_true), List.append_nil]

theorem decimal_inj (h : decimal m = decimal n) : m = n := by
  have hvalue := congrArg (Nat.ofDigitChars 10 · 0) h
  simpa [decimal] using hvalue

theorem isDigit_of_mem_decimal (hc : c ∈ decimal n) : c.isDigit = true :=
  Nat.isDigit_of_mem_toDigits (by decide) (by decide) hc

theorem notMem_decimal (hc : c.isDigit = false) : c ∉ decimal n := fun h => by
  rw [isDigit_of_mem_decimal h] at hc
  cases hc

theorem toNat_of_isDigit (hc : c.isDigit = true) : 48 ≤ c.toNat ∧ c.toNat ≤ 57 := by
  simp only [Char.isDigit, ge_iff_le, Bool.and_eq_true, decide_eq_true_eq, UInt32.le_iff_toNat_le] at hc
  exact hc

theorem toLower_of_isDigit (hc : c.isDigit = true) : c.toLower = c := by
  have hlt := (toNat_of_isDigit hc).2
  unfold Char.toLower
  rw [dif_neg]
  rintro ⟨hge, -⟩
  have hnat : 65 ≤ c.toNat := UInt32.le_iff_toNat_le.mp hge
  omega

theorem isWhitespace_of_isDigit (hc : c.isDigit = true) : isWhitespace c = false := by
  obtain ⟨hge, hle⟩ := toNat_of_isDigit hc
  simp only [isWhitespace, Bool.or_eq_false_iff, Bool.and_eq_false_iff, decide_eq_false_iff_not, beq_eq_false_iff_ne]
  omega

/-- A character that no first part has divides two texts in one way. -/
theorem append_cons_inj {xs' ys' : List Char} (hxs : c ∉ xs) (hxs' : c ∉ xs') (h : xs ++ c :: ys = xs' ++ c :: ys') :
    xs = xs' ∧ ys = ys' := by
  have hfind := congrArg (find c) h
  rw [find_eq hxs, find_eq hxs', Option.some_inj] at hfind
  obtain ⟨hleft, hright⟩ := List.append_inj h hfind
  exact ⟨hleft, List.tail_eq_of_cons_eq hright⟩

end
end Text
