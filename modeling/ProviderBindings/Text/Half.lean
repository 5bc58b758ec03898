/-!
# Halves of surrogate pairs

An escape can write one half of a UTF-16 surrogate pair, and a text then holds a half that no encoding
has bytes for. No character is such a half. In texts a half stands as a character for private use from
the last plane, the one whose number ends in the four hexadecimal digits of the half.
-/

namespace ProviderBindings.Text

/-- Whether a number is that of a half of a surrogate pair. -/
def isHalfNumber (n : Nat) : Bool :=
  0xD800 ≤ n && n ≤ 0xDFFF

/-- The character that stands for a half. -/
def ofHalf (n : Nat) : Char :=
  Char.ofNat (0x100000 + n)

/-- The number of the half that a character stands for, if it stands for one. -/
def half? (c : Char) : Option Nat :=
  if 0x10D800 ≤ c.toNat && c.toNat ≤ 0x10DFFF then some (c.toNat - 0x100000) else none

/-- A character stands for a half when it is the one that is far enough up in the last plane. -/
theorem half?_eq_some_iff {c : Char} {n : Nat} :
    half? c = some n ↔ (0xD800 ≤ n ∧ n ≤ 0xDFFF) ∧ c.toNat = 0x100000 + n := by
  unfold half?
  split
  · next h =>
    simp only [Bool.and_eq_true, decide_eq_true_eq] at h
    rw [Option.some.injEq]
    omega
  · next h =>
    simp only [Bool.and_eq_true, decide_eq_true_eq] at h
    constructor
    · intro hn
      cases hn
    · omega

/-- A half is told again from the character that stands for it. -/
theorem half?_ofHalf {n : Nat} (h : isHalfNumber n) : half? (ofHalf n) = some n := by
  have hn : 0xD800 ≤ n ∧ n ≤ 0xDFFF := by simpa [isHalfNumber] using h
  have valid : (0x100000 + n).isValidChar := by
    right
    omega
  have number : (ofHalf n).toNat = 0x100000 + n := by
    rw [ofHalf, Char.ofNat, dif_pos valid]
    rfl
  exact half?_eq_some_iff.2 ⟨hn, number⟩

/-- Whether the text holds a half. -/
def hasHalf (s : String) : Bool :=
  s.toList.any fun c => (half? c).isSome

end ProviderBindings.Text
