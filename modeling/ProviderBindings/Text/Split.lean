/-!
# Cutting texts at a character

`splitChars` cuts at every separator and keeps empty pieces, so that putting the separator back
between the pieces gives the text again; `cutFirst` cuts once. `swapChar` replaces one character by
another throughout.
-/

namespace ProviderBindings.Text

/-- The pieces of a text between separators; there is always at least one. -/
def splitChars (sep : Char) : List Char → List (List Char)
  | [] => [[]]
  | c :: cs =>
    if c = sep then [] :: splitChars sep cs
    else match splitChars sep cs with
      | [] => [[c]]
      | piece :: pieces => (c :: piece) :: pieces

/-- There is always a piece. -/
theorem splitChars_ne_nil (sep : Char) (cs : List Char) : splitChars sep cs ≠ [] := by
  cases cs with
  | nil => simp [splitChars]
  | cons c cs =>
    rw [splitChars]
    split
    · simp
    · split <;> simp

/-- Cutting before a character that is no separator makes the first piece longer by it. -/
theorem splitChars_cons {sep c : Char} (h : c ≠ sep) (cs : List Char) :
    ∃ piece pieces, splitChars sep cs = piece :: pieces ∧
      splitChars sep (c :: cs) = (c :: piece) :: pieces := by
  obtain ⟨piece, pieces, hp⟩ := List.exists_cons_of_ne_nil (splitChars_ne_nil sep cs)
  exact ⟨piece, pieces, hp, by simp [splitChars, h, hp]⟩

/-- Putting the separator back between the pieces gives the text again. -/
theorem intercalate_splitChars (sep : Char) (cs : List Char) :
    [sep].intercalate (splitChars sep cs) = cs := by
  induction cs with
  | nil => rfl
  | cons c cs ih =>
    by_cases h : c = sep
    · subst h
      obtain ⟨piece, pieces, hp⟩ := List.exists_cons_of_ne_nil (splitChars_ne_nil c cs)
      rw [splitChars, if_pos rfl]
      rw [hp] at ih ⊢
      simpa [List.intercalate] using ih
    · obtain ⟨piece, pieces, hp, hc⟩ := splitChars_cons h cs
      rw [hp] at ih
      rw [hc]
      cases pieces <;> simpa [List.intercalate] using ih

/-- No piece holds a separator. -/
theorem not_mem_of_mem_splitChars {sep : Char} {cs piece : List Char}
    (h : piece ∈ splitChars sep cs) : sep ∉ piece := by
  induction cs generalizing piece with
  | nil => simp_all [splitChars]
  | cons c cs ih =>
    by_cases hc : c = sep
    · rw [splitChars, if_pos hc] at h
      rcases List.mem_cons.1 h with rfl | h
      · simp
      · exact ih h
    · obtain ⟨first, pieces, hp, hs⟩ := splitChars_cons hc cs
      rw [hs] at h
      rcases List.mem_cons.1 h with rfl | h
      · have first_ok : sep ∉ first := ih (by simp [hp])
        simpa [first_ok] using fun e => hc e.symm
      · exact ih (by simp [hp, h])

/-- Cutting a text is cutting the list of its characters. -/
theorem splitChars_eq_splitOn (sep : Char) (cs : List Char) : splitChars sep cs = cs.splitOn sep := by
  induction cs with
  | nil => rfl
  | cons c cs ih =>
    rw [splitChars, List.splitOn_cons_eq_if_modifyHead, ih]
    by_cases h : c = sep
    · rw [if_pos h, if_pos (by simpa using h)]
    · rw [if_neg h, if_neg (by simpa using h)]
      cases hs : cs.splitOn sep with
      | nil => exact absurd (ih.trans hs) (splitChars_ne_nil sep cs)
      | cons piece pieces => rfl

/-- Pieces without separators are the pieces of what they are joined to. -/
theorem splitChars_intercalate {sep : Char} {pieces : List (List Char)} (hne : pieces ≠ [])
    (h : ∀ piece ∈ pieces, sep ∉ piece) : splitChars sep ([sep].intercalate pieces) = pieces := by
  rw [splitChars_eq_splitOn, List.splitOn_intercalate sep h hne]

/-- A text that is joined ends in its last piece. -/
theorem isSuffix_intercalate (sep : Char) (init : List (List Char)) (last : List Char) :
    last <:+ [sep].intercalate (init ++ [last]) := by
  induction init with
  | nil => simp
  | cons first rest ih =>
    rw [List.cons_append, List.intercalate_cons_of_ne_nil (by simp)]
    exact ih.trans (List.suffix_append _ _)

/-- A text that is joined holds its separator and the characters of its pieces. -/
theorem mem_intercalate {sep c : Char} {pieces : List (List Char)}
    (h : c ∈ [sep].intercalate pieces) : c = sep ∨ ∃ piece ∈ pieces, c ∈ piece := by
  induction pieces with
  | nil => simp at h
  | cons first rest ih =>
    cases rest with
    | nil => exact .inr ⟨first, by simp, by simpa using h⟩
    | cons next rest =>
      rw [List.intercalate_cons_cons, List.mem_append, List.mem_append, List.mem_singleton] at h
      rcases h with (h | h) | h
      · exact .inr ⟨first, by simp, h⟩
      · exact .inl h
      · exact (ih h).imp_right fun ⟨piece, hpiece, hc⟩ => ⟨piece, List.mem_cons_of_mem _ hpiece, hc⟩

/-- The pieces of a text between separators. -/
def split (sep : Char) (s : String) : List String :=
  (splitChars sep s.toList).map String.ofList

/-- No piece of a text holds a separator. -/
theorem not_mem_of_mem_split {sep : Char} {s piece : String} (h : piece ∈ split sep s) :
    sep ∉ piece.toList := by
  obtain ⟨cs, hcs, rfl⟩ := List.mem_map.1 h
  rw [String.toList_ofList]
  exact not_mem_of_mem_splitChars hcs

/-- Names without slashes are the pieces of their text between slashes. -/
theorem split_intercalate {names : List String} (hne : names ≠ [])
    (h : ∀ name ∈ names, '/' ∉ name.toList) : split '/' (String.intercalate "/" names) = names := by
  have hpieces : splitChars '/' ([ '/' ].intercalate (names.map String.toList)) =
      names.map String.toList := by
    refine splitChars_intercalate (by simpa using hne) ?_
    intro piece hpiece
    obtain ⟨name, hname, rfl⟩ := List.mem_map.1 hpiece
    exact h name hname
  unfold split
  rw [String.toList_intercalate, show ("/" : String).toList = [ '/' ] from rfl, hpieces, List.map_map]
  simp

/-- What stands before the first separator, and what stands after it if there is one. -/
def cutFirst (sep : Char) : List Char → List Char × Option (List Char)
  | [] => ([], none)
  | c :: cs =>
    if c = sep then ([], some cs)
    else
      let (before, after) := cutFirst sep cs
      (c :: before, after)

/-- What stands before the first separator holds none. -/
theorem not_mem_cutFirst (sep : Char) (cs : List Char) : sep ∉ (cutFirst sep cs).1 := by
  induction cs with
  | nil => simp [cutFirst]
  | cons c cs ih =>
    by_cases h : c = sep
    · simp [cutFirst, h]
    · simpa [cutFirst, h, ih] using fun e => h e.symm

/-- A cut loses nothing but the separator. -/
theorem cutFirst_append (sep : Char) (cs : List Char) :
    (cutFirst sep cs).1 ++ ((cutFirst sep cs).2.map (sep :: ·)).getD [] = cs := by
  induction cs with
  | nil => rfl
  | cons c cs ih =>
    by_cases h : c = sep
    · simp [cutFirst, h]
    · simpa [cutFirst, h] using ih

/-- A text is cut in one way only: before, there is no separator, and the cut loses nothing else. -/
theorem cutFirst_eq_iff {sep : Char} {cs before : List Char} {after : Option (List Char)} :
    cutFirst sep cs = (before, after) ↔
      sep ∉ before ∧ cs = before ++ (after.map (sep :: ·)).getD [] := by
  constructor
  · intro h
    have hbefore := not_mem_cutFirst sep cs
    have happend := cutFirst_append sep cs
    rw [h] at hbefore happend
    exact ⟨hbefore, happend.symm⟩
  · rintro ⟨hbefore, rfl⟩
    -- on what stands before the separator, which the cut passes one character at a time
    induction before with
    | nil => cases after <;> simp [cutFirst]
    | cons c before ih =>
      have hc : c ≠ sep := fun e => hbefore (by simp [e])
      rw [List.cons_append, cutFirst, if_neg hc, ih fun hmem => hbefore (List.mem_cons_of_mem _ hmem)]

/-- Every `old` character of the text replaced by `new`. -/
def swapChar (old new : Char) (s : String) : String :=
  String.ofList (s.toList.map fun c => if c = old then new else c)

/-- The lines of a text joined by line feeds, with one more at the end. -/
def unlines (lines : List String) : String :=
  String.intercalate "\n" lines ++ "\n"

/-- The text filled up with spaces on the right to at least `width` characters. -/
def padRight (width : Nat) (s : String) : String :=
  s ++ String.ofList (List.replicate (width - s.length) ' ')

end ProviderBindings.Text
