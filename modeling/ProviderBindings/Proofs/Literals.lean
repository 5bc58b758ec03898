import Mathlib.Data.List.Chain
import ProviderBindings.Json

/-!
# String literals

`Json.readUnits` reads a string literal as the grammar of JSON has it: between quotes stand characters other
than quotes, backslashes and controls, and escapes. It gives UTF-16 units, which is what an escape names,
and `Text.joinUnits` puts the two units of a pair together again. `literalUnits_quoteChars` says that the units of
a text that was quoted are read back, whatever the text is.

The characters are read back exactly when the text has no first half of a pair right before a second half, each
as a character of its own (`Text.joinUnits_flatMap_units_eq_iff`): these two are one character once they have been read.
No text of Unicode characters has them, but escapes can write one after the other.
-/

namespace ProviderBindings

/-! ## Units and characters -/

namespace Text

/-- The number of a character is that of no half. -/
theorem toNat_valid (c : Char) :
    c.toNat < 0xD800 ∨ (0xDFFF < c.toNat ∧ c.toNat < 0x110000) :=
  c.valid

/-- Whether a unit is the first half of a pair. -/
def isFirstHalf (n : Nat) : Bool :=
  0xD800 ≤ n && n < 0xDC00

/-- Whether a unit is the second half of a pair. -/
def isSecondHalf (n : Nat) : Bool :=
  0xDC00 ≤ n && n < 0xE000

/-- The character of a unit that is not in a pair. -/
def ofUnit (n : Nat) : Char :=
  if isHalfNumber n then ofHalf n else Char.ofNat n

/-- The characters that units spell. A first half and a second half right after it are one character. -/
def joinUnits : List Nat → List Char
  | [] => []
  | [n] => [ofUnit n]
  | n :: m :: rest =>
    if isFirstHalf n && isSecondHalf m then
      Char.ofNat (0x10000 + (n - 0xD800) * 0x400 + (m - 0xDC00)) :: joinUnits rest
    else ofUnit n :: joinUnits (m :: rest)

/-- Whether two characters are the two halves of a pair. -/
def isSplitPair (c d : Char) : Bool :=
  (half? c).any isFirstHalf && (half? d).any isSecondHalf

/-- Whether no pair in the text is split into two characters. -/
def Unsplit (cs : List Char) : Prop :=
  cs.IsChain fun c d => isSplitPair c d = false

instance (cs : List Char) : Decidable (Unsplit cs) := by
  unfold Unsplit; infer_instance

end Text

namespace Json

/-- The unit of an escape that is one character. -/
def shortEscape? : Char → Option Nat
  | '"' => some 0x22
  | '\\' => some 0x5C
  | '/' => some 0x2F
  | 'b' => some 0x08
  | 'f' => some 0x0C
  | 'n' => some 0x0A
  | 'r' => some 0x0D
  | 't' => some 0x09
  | _ => none

/-- The units of what stands in a literal after its first quote. There is a last quote, and nothing
after it. -/
def readUnits : List Char → Option (List Nat)
  | '\\' :: 'u' :: a :: b :: c :: d :: rest =>
    if [a, b, c, d].all Text.isHexDigit then (readUnits rest).map (Text.numberOf 16 [a, b, c, d] :: ·)
    else none
  | '\\' :: e :: rest => (shortEscape? e).bind fun n => (readUnits rest).map (n :: ·)
  | ['"'] => some []
  | c :: rest =>
    if c = '"' || c = '\\' || c < ' ' then none else (readUnits rest).map (units c ++ ·)
  | [] => none

/-- The units of a literal. -/
def literalUnits : List Char → Option (List Nat)
  | '"' :: rest => readUnits rest
  | _ => none

/-- The text of a literal. -/
def literalText (literal : List Char) : Option (List Char) :=
  (literalUnits literal).map Text.joinUnits

/-! ## Reading a quoted text -/

/-- A unit has four hexadecimal digits. -/
theorem units_lt {c : Char} {n : Nat} (h : n ∈ units c) : n < 0x10000 := by
  have hc := Text.toNat_valid c
  cases hm : Text.half? c with
  | some m =>
    rw [units_of_half hm, List.mem_singleton] at h
    have hrange := (Text.half?_eq_some_iff.1 hm).1
    omega
  | none =>
    by_cases hlow : c.toNat < 0x10000
    · rw [units_of_lt hm hlow, List.mem_singleton] at h
      omega
    · rw [units_of_not_lt hm hlow] at h
      simp only [List.mem_cons, List.not_mem_nil, or_false] at h
      omega

/-- Every character has a unit. -/
theorem units_ne_nil (c : Char) : units c ≠ [] := by
  cases hm : Text.half? c with
  | some m => simp [units_of_half hm]
  | none =>
    by_cases hlow : c.toNat < 0x10000
    · simp [units_of_lt hm hlow]
    · simp [units_of_not_lt hm hlow]

/-- An escape of one character is read. -/
theorem readUnits_short {e : Char} {n : Nat} (h : shortEscape? e = some n) (rest : List Char) :
    readUnits ('\\' :: e :: rest) = (readUnits rest).map (n :: ·) := by
  have he : e ≠ 'u' := by
    rintro rfl
    cases h
  rw [readUnits]
  · rw [h]
    rfl
  · exact fun _ _ _ _ _ hu => absurd hu he

/-- An escaped unit is read. -/
theorem readUnits_escapeUnit {n : Nat} (h : n < 0x10000) (rest : List Char) :
    readUnits (escapeUnit n ++ rest) = (readUnits rest).map (n :: ·) := by
  have hnumber := Text.numberOf_hexDigits 4 n
  rw [Nat.mod_eq_of_lt h] at hnumber
  have hhex : (Text.hexDigits 4 n).all Text.isHexDigit = true := by
    have hdigit : ∀ m : Fin 16, Text.isHexDigit (Text.hexDigit m) = true := by decide
    refine List.all_eq_true.2 fun d hd => ?_
    obtain ⟨m, rfl⟩ := Text.exists_of_mem_hexDigits hd
    exact hdigit m
  match hdigits : Text.hexDigits 4 n, Text.length_hexDigits 4 n with
  | [a, b, c, d], _ =>
    rw [hdigits] at hnumber hhex
    rw [escapeUnit, hdigits]
    simp only [List.cons_append, List.nil_append]
    rw [readUnits, if_pos hhex, hnumber]

/-- Escaped units are read one after another. -/
theorem readUnits_escapeUnits {ns : List Nat} (h : ∀ n ∈ ns, n < 0x10000) (rest : List Char) :
    readUnits (ns.flatMap escapeUnit ++ rest) = (readUnits rest).map (ns ++ ·) := by
  induction ns with
  | nil => simp
  | cons n ns ih =>
    rw [List.flatMap_cons, List.append_assoc, readUnits_escapeUnit (h n (by simp)),
      ih fun m hm => h m (List.mem_cons_of_mem _ hm), Option.map_map]
    rfl

/-- A character that is not escaped is read. -/
theorem readUnits_plain {c : Char} (h : ¬(c = '"' || c = '\\' || c < ' ') = true) (rest : List Char) :
    readUnits (c :: rest) = (readUnits rest).map (units c ++ ·) := by
  have hquote : c ≠ '"' := by
    rintro rfl
    exact h (by decide)
  have hback : c ≠ '\\' := by
    rintro rfl
    exact h (by decide)
  rw [readUnits, if_neg h]
  · exact fun _ _ _ _ _ hc => absurd hc hback
  · exact fun _ _ hc => absurd hc hback
  · exact fun hc => absurd hc hquote

/-- What a character may be escaped as. -/
inductive Escaped (c : Char) : List Char → Prop
  /-- A short escape of its one unit. -/
  | short {e : Char} {n : Nat} (he : shortEscape? e = some n) (hn : units c = [n]) : Escaped c ['\\', e]
  /-- Itself. -/
  | plain (hquote : c ≠ '"') (hback : c ≠ '\\') (hrange : ' ' ≤ c ∧ c ≤ '~') : Escaped c [c]
  /-- Its units in figures. -/
  | figures : Escaped c ((units c).flatMap escapeUnit)

/-- A character is escaped in one of these ways. -/
theorem escaped_escapeChar (c : Char) : Escaped c (escapeChar c) := by
  unfold escapeChar
  split
  · next h =>
    obtain rfl | rfl : c = '"' ∨ c = '\\' := by simpa using h
    · exact .short rfl (by decide)
    · exact .short rfl (by decide)
  next hself =>
  obtain ⟨hquote, hback⟩ : c ≠ '"' ∧ c ≠ '\\' := by simpa using hself
  split
  · next h => exact .short rfl (by rw [h]; decide)
  split
  · next h => exact .short rfl (by rw [h]; decide)
  split
  · next h => exact .short rfl (by rw [h]; decide)
  split
  · next h => exact .short rfl (by rw [h]; decide)
  split
  · next h => exact .short rfl (by rw [h]; decide)
  split
  · next h => exact .plain hquote hback (by simpa using h)
  · exact .figures

/-- Whatever a character is quoted as, its units are read. -/
theorem readUnits_escapeChar (c : Char) (rest : List Char) :
    readUnits (escapeChar c ++ rest) = (readUnits rest).map (units c ++ ·) := by
  have hescaped := escaped_escapeChar c
  generalize escapeChar c = cs at hescaped
  cases hescaped with
  | short he hn =>
    rw [hn]
    exact readUnits_short he rest
  | plain hquote hback hrange =>
    refine readUnits_plain ?_ rest
    simp only [Bool.or_eq_true, decide_eq_true_eq]
    rintro ((rfl | rfl) | hcontrol)
    · exact hquote rfl
    · exact hback rfl
    · exact absurd hrange.1 (by simpa using hcontrol)
  | figures => exact readUnits_escapeUnits (fun n hn => units_lt hn) rest

/-- The units of a text are read from its literal. -/
theorem literalUnits_quoteChars (cs : List Char) :
    literalUnits (quoteChars cs) = some (cs.flatMap units) := by
  show readUnits (cs.flatMap escapeChar ++ ['"']) = _
  induction cs with
  | nil => rfl
  | cons c cs ih =>
    rw [List.flatMap_cons, List.append_assoc, readUnits_escapeChar, ih, List.flatMap_cons]
    rfl

/-! ## The characters of a literal -/

/-- Whether a character is in the printable range of ASCII. -/
def InAscii (c : Char) : Prop :=
  ' ' ≤ c ∧ c ≤ '~'

instance (c : Char) : Decidable (InAscii c) :=
  inferInstanceAs (Decidable (' ' ≤ c ∧ c ≤ '~'))

/-- An escape is written in ASCII. -/
theorem inAscii_of_mem_escapeUnit {n : Nat} {c : Char} (h : c ∈ escapeUnit n) : InAscii c := by
  have hdigit : ∀ m : Fin 16, InAscii (Text.hexDigit m) := by decide
  rcases List.mem_cons.1 h with rfl | h
  · decide
  · rcases List.mem_cons.1 h with rfl | h
    · decide
    · obtain ⟨m, rfl⟩ := Text.exists_of_mem_hexDigits h
      exact hdigit m

/-- A short escape is written in ASCII. -/
theorem inAscii_of_shortEscape? {e : Char} {n : Nat} (h : shortEscape? e = some n) : InAscii e := by
  unfold shortEscape? at h
  split at h
  all_goals first | decide | cases h

/-- A character is quoted in ASCII. -/
theorem inAscii_of_mem_escapeChar {c d : Char} (h : d ∈ escapeChar c) : InAscii d := by
  have hescaped := escaped_escapeChar c
  generalize escapeChar c = cs at h hescaped
  cases hescaped with
  | short he _ =>
    rcases List.mem_cons.1 h with rfl | h
    · decide
    · exact List.mem_singleton.1 h ▸ inAscii_of_shortEscape? he
  | plain _ _ hrange =>
    rw [List.mem_singleton.1 h]
    exact hrange
  | figures =>
    obtain ⟨n, -, hn⟩ := List.mem_flatMap.1 h
    exact inAscii_of_mem_escapeUnit hn

/-- A literal is written in ASCII, and so it has no line end. -/
theorem inAscii_of_mem_quoteChars {cs : List Char} {d : Char} (h : d ∈ quoteChars cs) : InAscii d := by
  have hquote : InAscii '"' := by decide
  unfold quoteChars at h
  rcases List.mem_cons.1 h with rfl | h
  · exact hquote
  · rcases List.mem_append.1 h with h | h
    · obtain ⟨c, -, hc⟩ := List.mem_flatMap.1 h
      exact inAscii_of_mem_escapeChar hc
    · exact List.mem_singleton.1 h ▸ hquote

end Json

/-! ## Joining pairs -/

namespace Text

/-- A unit that does not start a pair is a character of its own. -/
theorem joinUnits_cons {n : Nat} {rest : List Nat}
    (h : ∀ m ∈ rest.head?, ¬(isFirstHalf n = true ∧ isSecondHalf m = true)) :
    joinUnits (n :: rest) = ofUnit n :: joinUnits rest := by
  cases rest with
  | nil => rfl
  | cons m rest => rw [joinUnits, if_neg (by simpa using h m rfl)]

/-- Two units that are a pair are one character. -/
theorem joinUnits_pair {n m : Nat} (hn : isFirstHalf n = true) (hm : isSecondHalf m = true)
    (rest : List Nat) :
    joinUnits (n :: m :: rest) =
      Char.ofNat (0x10000 + (n - 0xD800) * 0x400 + (m - 0xDC00)) :: joinUnits rest := by
  rw [joinUnits, if_pos (by simp [hn, hm])]

/-- A character of the first plane is that of its unit, which is in no pair. -/
theorem ofUnit_toNat {c : Char} (hlow : c.toNat < 0x10000) :
    ofUnit c.toNat = c ∧ isFirstHalf c.toNat = false ∧ isSecondHalf c.toNat = false := by
  have hvalid := toNat_valid c
  obtain ⟨hhalf, hfirst, hsecond⟩ :
      isHalfNumber c.toNat = false ∧ isFirstHalf c.toNat = false ∧ isSecondHalf c.toNat = false := by
    unfold isHalfNumber isFirstHalf isSecondHalf
    simp only [Bool.and_eq_false_iff, decide_eq_false_iff_not]
    omega
  refine ⟨?_, hfirst, hsecond⟩
  rw [ofUnit, if_neg (by simp [hhalf]), Char.ofNat_toNat]

/-- A half that stands alone is the character that stands for it. -/
theorem ofUnit_half {c : Char} {n : Nat} (h : half? c = some n) : ofUnit n = c := by
  obtain ⟨hrange, hnumber⟩ := half?_eq_some_iff.1 h
  have hhalf : isHalfNumber n = true := by
    unfold isHalfNumber
    simpa using hrange
  rw [ofUnit, if_pos hhalf, ofHalf, ← hnumber, Char.ofNat_toNat]

/-- A character of another plane is that of its two units, which are a pair. -/
theorem pair_of_not_lt {c : Char} (hhigh : ¬c.toNat < 0x10000) :
    isFirstHalf (0xD800 + (c.toNat - 0x10000) / 0x400) = true ∧
      isSecondHalf (0xDC00 + (c.toNat - 0x10000) % 0x400) = true ∧
      0x10000 + (0xD800 + (c.toNat - 0x10000) / 0x400 - 0xD800) * 0x400 +
        (0xDC00 + (c.toNat - 0x10000) % 0x400 - 0xDC00) = c.toNat := by
  have hvalid := toNat_valid c
  unfold isFirstHalf isSecondHalf
  simp only [Bool.and_eq_true, decide_eq_true_eq]
  omega

/-- No unit is the first half and the second half of a pair. -/
theorem not_isSecondHalf {n : Nat} (h : isFirstHalf n = true) : isSecondHalf n = false := by
  unfold isFirstHalf at h
  unfold isSecondHalf
  simp only [Bool.and_eq_true, Bool.and_eq_false_iff, decide_eq_true_eq, decide_eq_false_iff_not] at h ⊢
  omega

/-- The first of the units of a character is the second half of a pair only when the character stands for
that half. -/
theorem half?_of_head_units {c : Char} {m : Nat} (h : m ∈ (Json.units c).head?)
    (hm : isSecondHalf m = true) : half? c = some m := by
  cases hc : half? c with
  | some n =>
    rw [Json.units_of_half hc] at h
    exact h
  | none =>
    by_cases hlow : c.toNat < 0x10000
    · rw [Json.units_of_lt hc hlow] at h
      cases h
      simp [(ofUnit_toNat hlow).2.2] at hm
    · rw [Json.units_of_not_lt hc hlow] at h
      cases h
      simp [not_isSecondHalf (pair_of_not_lt hlow).1] at hm

/-- The units of a character are joined to the character, unless it is a first half before a second. -/
theorem joinUnits_units {c : Char} {rest : List Nat}
    (h : ∀ m ∈ rest.head?, ¬((half? c).any isFirstHalf = true ∧ isSecondHalf m = true)) :
    joinUnits (Json.units c ++ rest) = c :: joinUnits rest := by
  cases hc : half? c with
  | some n =>
    rw [hc] at h
    rw [Json.units_of_half hc, List.singleton_append, joinUnits_cons (by simpa using h), ofUnit_half hc]
  | none =>
    by_cases hlow : c.toNat < 0x10000
    · obtain ⟨hchar, hfirst, -⟩ := ofUnit_toNat hlow
      rw [Json.units_of_lt hc hlow, List.singleton_append, joinUnits_cons (by simp [hfirst]), hchar]
    · obtain ⟨hfirst, hsecond, hnumber⟩ := pair_of_not_lt hlow
      rw [Json.units_of_not_lt hc hlow, List.cons_append, List.singleton_append,
        joinUnits_pair hfirst hsecond, hnumber, Char.ofNat_toNat]

/-- The units of a text in which no pair is split are joined to the text. -/
theorem joinUnits_flatMap_units {cs : List Char} (h : Unsplit cs) :
    joinUnits (cs.flatMap Json.units) = cs := by
  induction cs with
  | nil => rfl
  | cons c cs ih =>
    obtain ⟨hnext, hrest⟩ := List.isChain_cons.1 h
    rw [List.flatMap_cons, joinUnits_units, ih hrest]
    rintro m hm ⟨hfirst, hsecond⟩
    cases cs with
    | nil => cases hm
    | cons d cs =>
      have hd : half? d = some m := by
        refine half?_of_head_units ?_ hsecond
        rw [List.flatMap_cons, List.head?_append_of_ne_nil _ (Json.units_ne_nil d)] at hm
        exact hm
      have hsplit : isSplitPair c d = true := by
        rw [isSplitPair, hfirst, hd]
        exact hsecond
      simp [hnext d rfl] at hsplit

/-- The units of a text in which a pair is split are joined to a shorter text. -/
theorem length_joinUnits_lt {cs : List Char} (h : ¬Unsplit cs) :
    (joinUnits (cs.flatMap Json.units)).length < cs.length := by
  induction cs with
  | nil => exact absurd .nil h
  | cons c cs ih =>
    have hle : (joinUnits (cs.flatMap Json.units)).length ≤ cs.length := by
      by_cases hrest : Unsplit cs
      · rw [joinUnits_flatMap_units hrest]
      · exact (ih hrest).le
    cases cs with
    | nil => exact absurd (.singleton c) h
    | cons d rest =>
      cases hpair : isSplitPair c d with
      | true =>
        simp only [isSplitPair, Bool.and_eq_true, Option.any_eq_true] at hpair
        obtain ⟨⟨n, hn, hfirst⟩, m, hm, hsecond⟩ := hpair
        -- the two halves become one character, and the second of them starts no other pair
        have hlast : isFirstHalf m = false := by
          by_contra hm'
          simp [not_isSecondHalf (by simpa using hm')] at hsecond
        rw [List.flatMap_cons, Json.units_of_half hm, List.singleton_append,
          joinUnits_cons (by simp [hlast])] at hle
        rw [List.flatMap_cons, List.flatMap_cons, Json.units_of_half hn, Json.units_of_half hm,
          List.singleton_append, List.singleton_append, joinUnits_pair hfirst hsecond]
        simp only [List.length_cons] at hle ⊢
        omega
      | false =>
        have hrest : ¬Unsplit (d :: rest) := fun hrest => h (List.isChain_cons_cons.2 ⟨hpair, hrest⟩)
        have hnext : ∀ m ∈ ((d :: rest).flatMap Json.units).head?,
            ¬((half? c).any isFirstHalf = true ∧ isSecondHalf m = true) := by
          rintro m hm ⟨hfirst, hsecond⟩
          rw [List.flatMap_cons, List.head?_append_of_ne_nil _ (Json.units_ne_nil d)] at hm
          rw [isSplitPair, hfirst, half?_of_head_units hm hsecond] at hpair
          simp [hsecond] at hpair
        rw [List.flatMap_cons, joinUnits_units hnext]
        exact Nat.succ_lt_succ (ih hrest)

/-- The units of a text are joined to the text exactly when no pair is split in it. -/
theorem joinUnits_flatMap_units_eq_iff {cs : List Char} :
    joinUnits (cs.flatMap Json.units) = cs ↔ Unsplit cs := by
  refine ⟨fun h => ?_, joinUnits_flatMap_units⟩
  by_contra hsplit
  exact (length_joinUnits_lt hsplit).ne (congrArg List.length h)

end Text

example : Json.literalText "\"\\ud83d\\ude00\\u00e9\\n\"".toList = some ['😀', 'é', '\n'] := by
  decide

end ProviderBindings
