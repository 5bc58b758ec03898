/-!
# Blank characters

The characters that count as white space when a text is trimmed: the Unicode separators and line
ends, and the four information separators of ASCII. `strip` removes them from both ends; every
user-written name, version and tool output passes through it.
-/

namespace ProviderBindings.Text

/-- Whether a character is white space: the ASCII controls from tab to carriage return and from
file separator to unit separator, the space, and the Unicode line ends and spaces. -/
def isBlank (c : Char) : Bool :=
  let n := c.toNat
  (0x09 ≤ n && n ≤ 0x0D) || (0x1C ≤ n && n ≤ 0x20) || n == 0x85 || n == 0xA0 || n == 0x1680 ||
    (0x2000 ≤ n && n ≤ 0x200A) || n == 0x2028 || n == 0x2029 || n == 0x202F || n == 0x205F ||
    n == 0x3000

/-- The characters without those of a kind at both ends. -/
def trimChars (p : Char → Bool) (cs : List Char) : List Char :=
  ((cs.dropWhile p).reverse.dropWhile p).reverse

/-- The characters without the blanks at both ends. -/
def stripChars (cs : List Char) : List Char :=
  trimChars isBlank cs

/-- Only blanks are removed, and only at the ends. -/
theorem exists_eq_append_stripChars (cs : List Char) :
    ∃ before after, cs = before ++ stripChars cs ++ after ∧ (∀ c ∈ before, isBlank c) ∧
      ∀ c ∈ after, isBlank c := by
  refine ⟨cs.takeWhile isBlank, ((cs.dropWhile isBlank).reverse.takeWhile isBlank).reverse, ?_,
    fun c h => ?_, fun c h => ?_⟩
  · have h := congrArg List.reverse
      (List.takeWhile_append_dropWhile (p := isBlank) (l := (cs.dropWhile isBlank).reverse))
    rw [List.reverse_append, List.reverse_reverse] at h
    rw [stripChars, trimChars, List.append_assoc, h, List.takeWhile_append_dropWhile]
  · exact List.all_eq_true.1 (List.all_takeWhile (l := cs)) c h
  · exact List.all_eq_true.1 (List.all_takeWhile (l := (cs.dropWhile isBlank).reverse)) c
      (List.mem_reverse.1 h)

/-- What is left does not end in a blank. -/
theorem getLast?_stripChars (cs : List Char) : ∀ c ∈ (stripChars cs).getLast?, isBlank c = false := by
  intro c h
  rw [stripChars, trimChars, List.getLast?_reverse] at h
  simpa [Option.mem_def.1 h] using
    List.head?_dropWhile_not isBlank (cs.dropWhile isBlank).reverse

/-- What is left does not start with a blank. -/
theorem head?_stripChars (cs : List Char) : ∀ c ∈ (stripChars cs).head?, isBlank c = false := by
  intro c h
  have hp : stripChars cs <+: cs.dropWhile isBlank := by
    rw [stripChars, trimChars, ← List.reverse_suffix, List.reverse_reverse]
    exact List.dropWhile_suffix isBlank
  obtain ⟨rest, hr⟩ := hp
  obtain ⟨tail, ht⟩ := List.head?_eq_some_iff.1 h
  have hd := List.head?_dropWhile_not isBlank cs
  rw [← hr, ht] at hd
  simpa using hd

/-- Characters with no blank at either end stay as they are. -/
theorem stripChars_eq_self {cs : List Char} (hhead : ∀ c ∈ cs.head?, isBlank c = false)
    (hlast : ∀ c ∈ cs.getLast?, isBlank c = false) : stripChars cs = cs := by
  have hkeep {l : List Char} (h : ∀ c ∈ l.head?, isBlank c = false) : l.dropWhile isBlank = l := by
    cases l with
    | nil => rfl
    | cons c rest => simp [h c rfl]
  rw [stripChars, trimChars, hkeep hhead, hkeep (by rwa [List.head?_reverse]), List.reverse_reverse]

/-- What is left has no blanks at its ends. -/
@[simp] theorem stripChars_stripChars (cs : List Char) : stripChars (stripChars cs) = stripChars cs :=
  stripChars_eq_self (head?_stripChars cs) (getLast?_stripChars cs)

/-- A character that is no blank is left. -/
theorem mem_stripChars_iff {c : Char} (h : isBlank c = false) {cs : List Char} :
    c ∈ stripChars cs ↔ c ∈ cs := by
  obtain ⟨before, after, heq, hbefore, hafter⟩ := exists_eq_append_stripChars cs
  have hb : c ∉ before := fun hc => by simp [hbefore c hc] at h
  have ha : c ∉ after := fun hc => by simp [hafter c hc] at h
  have hmem : c ∈ before ++ stripChars cs ++ after ↔ c ∈ stripChars cs := by simp [hb, ha]
  rw [← heq] at hmem
  exact hmem.symm

/-- The text without the blanks at both ends. -/
def strip (s : String) : String :=
  String.ofList (stripChars s.toList)

end ProviderBindings.Text
