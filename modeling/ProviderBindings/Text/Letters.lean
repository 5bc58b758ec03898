/-!
# Letters and digits

Character classes of ASCII, and the two case conversions that names go through. Lower-casing is
for comparing with names written in small ASCII letters, upper-casing with names written in capital
ASCII letters; `upperLetters` therefore covers, beside ASCII, exactly the letters whose capital form
is made of ASCII letters. Numbers are written in hexadecimal digits of a fixed width, and
`numberOf_hexDigits` says that they are read back.
-/

namespace ProviderBindings.Text

/-- A decimal digit of ASCII. -/
def isDigit (c : Char) : Bool :=
  '0' ≤ c && c ≤ '9'

/-- A small letter of ASCII. -/
def isSmall (c : Char) : Bool :=
  'a' ≤ c && c ≤ 'z'

/-- A capital letter of ASCII. -/
def isCapital (c : Char) : Bool :=
  'A' ≤ c && c ≤ 'Z'

/-- A letter or a digit of ASCII. -/
def isAlphanumeric (c : Char) : Bool :=
  isDigit c || isSmall c || isCapital c

/-- What holds of the letters and digits among the characters from zero to small z holds of all. -/
theorem forall_of_isAlphanumeric {p : Char → Prop}
    (h : ∀ k ∈ List.range' 48 75, isAlphanumeric (Char.ofNat k) = true → p (Char.ofNat k)) {c : Char}
    (hc : isAlphanumeric c = true) : p c := by
  have hrange : c.toNat ∈ List.range' 48 75 := by
    unfold isAlphanumeric isDigit isSmall isCapital at hc
    simp only [Bool.or_eq_true, Bool.and_eq_true, decide_eq_true_eq, Char.le_def,
      UInt32.le_iff_toNat_le, Char.reduceVal, UInt32.reduceToNat] at hc
    have hvalue : c.toNat = c.val.toNat := rfl
    rw [List.mem_range'_1, hvalue]
    omega
  have hall := h c.toNat hrange
  rw [Char.ofNat_toNat] at hall
  exact hall hc

/-- A hexadecimal digit, in either case. -/
def isHexDigit (c : Char) : Bool :=
  isDigit c || ('a' ≤ c && c ≤ 'f') || ('A' ≤ c && c ≤ 'F')

/-- A capital ASCII letter becomes small; every other character stays. -/
def lowerChar (c : Char) : Char :=
  if isCapital c then Char.ofNat (c.toNat + 32) else c

/-- A small ASCII letter becomes a capital; every other character stays. -/
def upperChar (c : Char) : Char :=
  if isSmall c then Char.ofNat (c.toNat - 32) else c

/-- The text with its ASCII capitals made small. -/
def lower (s : String) : String :=
  String.ofList (s.toList.map lowerChar)

/-- The capital form of a letter. A letter outside ASCII stands for itself, unless its capital form
is made of ASCII letters: the dotless i, the long s, the sharp s and the ligatures of f and s. -/
def upperLetters (c : Char) : List Char :=
  match c.toNat with
  | 0x131 => ['I']
  | 0x17F => ['S']
  | 0xDF => ['S', 'S']
  | 0xFB00 => ['F', 'F']
  | 0xFB01 => ['F', 'I']
  | 0xFB02 => ['F', 'L']
  | 0xFB03 => ['F', 'F', 'I']
  | 0xFB04 => ['F', 'F', 'L']
  | 0xFB05 => ['S', 'T']
  | 0xFB06 => ['S', 'T']
  | _ => [upperChar c]

/-- The text in capital letters. -/
def upper (s : String) : String :=
  String.ofList (s.toList.flatMap upperLetters)

/-- The value of a hexadecimal digit, and zero for any other character. -/
def hexValue (c : Char) : Nat :=
  if isDigit c then c.toNat - 48
  else if 'a' ≤ c && c ≤ 'f' then c.toNat - 87
  else if 'A' ≤ c && c ≤ 'F' then c.toNat - 55
  else 0

/-- The number that digits denote in a base, most significant digit first. -/
def numberOf (base : Nat) (digits : List Char) : Nat :=
  digits.foldl (fun n c => n * base + hexValue c) 0

/-- The small hexadecimal digit of a number below sixteen. -/
def hexDigit (n : Nat) : Char :=
  if n < 10 then Char.ofNat (48 + n) else Char.ofNat (87 + n)

/-- The last `width` hexadecimal digits of a number, padded with zeros on the left. -/
def hexDigits : Nat → Nat → List Char
  | 0, _ => []
  | width + 1, n => hexDigits width (n / 16) ++ [hexDigit (n % 16)]

/-- There are as many digits as asked for. -/
theorem length_hexDigits (width n : Nat) : (hexDigits width n).length = width := by
  induction width generalizing n with
  | zero => rfl
  | succ width ih => simp [hexDigits, ih]

/-- Every one of them is a hexadecimal digit of a number below sixteen. -/
theorem exists_of_mem_hexDigits {width n : Nat} {c : Char} (h : c ∈ hexDigits width n) :
    ∃ m : Fin 16, c = hexDigit m := by
  induction width generalizing n with
  | zero => cases h
  | succ width ih =>
    rcases List.mem_append.1 h with h | h
    · exact ih h
    · exact ⟨⟨n % 16, Nat.mod_lt n (by decide)⟩, List.mem_singleton.1 h⟩

/-- A hexadecimal digit has the value it was written for. -/
theorem hexValue_hexDigit {n : Nat} (h : n < 16) : hexValue (hexDigit n) = n := by
  have all_digits : ∀ m : Fin 16, hexValue (hexDigit m) = m := by decide
  exact all_digits ⟨n, h⟩

/-- Hexadecimal digits denote the number they were written for, as far as it fits into their width. -/
theorem numberOf_hexDigits (width n : Nat) :
    numberOf 16 (hexDigits width n) = n % Nat.pow 16 width := by
  induction width generalizing n with
  | zero => exact (Nat.mod_one n).symm
  | succ width ih =>
    have snoc (cs : List Char) (c : Char) :
        numberOf 16 (cs ++ [c]) = numberOf 16 cs * 16 + hexValue c := by
      simp [numberOf, List.foldl_append]
    have wider : Nat.pow 16 (width + 1) = 16 * Nat.pow 16 width := Nat.mul_comm _ _
    rw [hexDigits, snoc, ih, hexValue_hexDigit (Nat.mod_lt n (by decide)), wider, Nat.mod_mul]
    omega

end ProviderBindings.Text
