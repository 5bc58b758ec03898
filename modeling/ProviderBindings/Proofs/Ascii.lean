import ProviderBindings.Bindings
import ProviderBindings.Manifest
import ProviderBindings.Proofs.Literals

/-!
# Texts in ASCII

Names are free text, but what is written for them is in ASCII: the name of a class is an identifier whatever
the name of its target is, a string literal escapes everything else, and a document is made of literals,
numbers and marks (`Json.isAscii_render`). Such a text has no half of a surrogate pair, so that there are
bytes for it (`IsAscii.hasHalf_eq_false`).
-/

namespace ProviderBindings

/-! ## Texts and lines -/

/-- Whether a text is in ASCII. -/
def IsAscii (s : String) : Prop :=
  ∀ c ∈ s.toList, c.toNat < 128

/-- Whether a text is in the printable range of ASCII. -/
def InAscii (s : String) : Prop :=
  ∀ c ∈ s.toList, Json.InAscii c

instance (s : String) : Decidable (IsAscii s) :=
  List.decidableBAll (fun c : Char => c.toNat < 128) s.toList

instance (s : String) : Decidable (InAscii s) :=
  List.decidableBAll Json.InAscii s.toList

/-- The printable range is a part of ASCII. -/
theorem InAscii.isAscii {s : String} (h : InAscii s) : IsAscii s := by
  intro c hc
  have hlast : c.toNat ≤ 126 := UInt32.le_iff_toNat_le.1 (h c hc).2
  omega

/-- Texts after one another are in the printable range when all are. -/
theorem InAscii.append {a b : String} (ha : InAscii a) (hb : InAscii b) : InAscii (a ++ b) := by
  intro c hc
  rw [String.toList_append] at hc
  exact (List.mem_append.1 hc).elim (ha c) (hb c)

/-- Texts after one another are in ASCII when all are. -/
theorem IsAscii.append {a b : String} (ha : IsAscii a) (hb : IsAscii b) : IsAscii (a ++ b) := by
  intro c hc
  rw [String.toList_append] at hc
  exact (List.mem_append.1 hc).elim (ha c) (hb c)

/-- Texts with another one in between are in ASCII when all are. -/
theorem IsAscii.intercalate {sep : String} (hsep : IsAscii sep) {pieces : List String}
    (h : ∀ piece ∈ pieces, IsAscii piece) : IsAscii (String.intercalate sep pieces) := by
  induction pieces with
  | nil => simp [IsAscii]
  | cons first rest ih =>
    have hfirst : IsAscii first := h first (by simp)
    have hrest : IsAscii (String.intercalate sep rest) := ih fun piece hpiece => h piece (List.mem_cons_of_mem _ hpiece)
    cases rest with
    | nil => simpa [String.intercalate_singleton] using hfirst
    | cons next rest =>
      rw [String.intercalate_cons_cons]
      exact (hfirst.append hsep).append hrest

/-- Lines in ASCII make a text in ASCII. -/
theorem Text.isAscii_unlines {lines : List String} (h : ∀ line ∈ lines, IsAscii line) : IsAscii (unlines lines) :=
  (IsAscii.intercalate (by decide) h).append (by decide)

/-- A text in ASCII has no half of a surrogate pair. -/
theorem IsAscii.hasHalf_eq_false {s : String} (h : IsAscii s) : Text.hasHalf s = false := by
  refine List.any_eq_false.2 fun c hc hhalf => ?_
  obtain ⟨n, hn⟩ := Option.isSome_iff_exists.1 hhalf
  have hnumber := (Text.half?_eq_some_iff.1 hn).2
  have hlow := h c hc
  omega

/-! ## The name of a class -/

/-- An identifier: a letter, then letters and digits. -/
def IsIdentifier (s : String) : Prop :=
  ∃ first rest, s.toList = first :: rest ∧ (Text.isSmall first || Text.isCapital first) = true ∧
    ∀ c ∈ rest, Text.isAlphanumeric c = true

/-- The runs of a text are made of letters and digits. -/
theorem isAlphanumeric_of_mem_runs {cs run : List Char} (h : run ∈ alphanumericRuns cs) :
    ∀ c ∈ run, Text.isAlphanumeric c = true := by
  -- also of the empty runs, which are left out at the end
  have hgo : ∀ run ∈ alphanumericRuns.go cs, ∀ c ∈ run, Text.isAlphanumeric c = true := by
    clear h
    induction cs with
    | nil => simp [alphanumericRuns.go]
    | cons c cs ih =>
      rw [alphanumericRuns.go]
      split
      · next hc =>
        split
        · simpa using hc
        · next first runs hruns =>
          rw [hruns] at ih
          intro run hrun d hd
          rcases List.mem_cons.1 hrun with rfl | hrun
          · rcases List.mem_cons.1 hd with rfl | hd
            · exact hc
            · exact ih first (by simp) d hd
          · exact ih run (List.mem_cons_of_mem _ hrun) d hd
      · intro run hrun d hd
        rcases List.mem_cons.1 hrun with rfl | hrun
        · cases hd
        · exact ih run hrun d hd
  exact hgo run (List.mem_filter.1 h).1

/-- Capitals are letters and digits where the run is made of them. -/
theorem isAlphanumeric_of_mem_capitalized {run : List Char}
    (h : ∀ c ∈ run, Text.isAlphanumeric c = true) :
    ∀ c ∈ capitalized run, Text.isAlphanumeric c = true := by
  have hupper {c : Char} (hc : Text.isAlphanumeric c = true) :
      Text.isAlphanumeric (Text.upperChar c) = true :=
    Text.forall_of_isAlphanumeric (p := fun c => Text.isAlphanumeric (Text.upperChar c) = true)
      (by decide) hc
  cases run with
  | nil => simp [capitalized]
  | cons first rest =>
    intro c hc
    rcases List.mem_cons.1 hc with rfl | hc
    · exact hupper (h first (by simp))
    · exact h c (List.mem_cons_of_mem _ hc)

/-- Letters and digits start with a letter, once a T stands in front of a digit. -/
theorem exists_letter_cons {base : List Char} (hne : base ≠ [])
    (h : ∀ c ∈ base, Text.isAlphanumeric c = true) :
    ∃ first rest, (if base.head?.any Text.isDigit then 'T' :: base else base) = first :: rest ∧
      (Text.isSmall first || Text.isCapital first) = true ∧
      ∀ c ∈ rest, Text.isAlphanumeric c = true := by
  split
  · exact ⟨'T', base, rfl, by decide, h⟩
  · next hdigit =>
    obtain ⟨first, rest, rfl⟩ := List.exists_cons_of_ne_nil hne
    have hfirst := h first (by simp)
    refine ⟨first, rest, rfl, ?_, fun c hc => h c (List.mem_cons_of_mem _ hc)⟩
    simpa [Text.isAlphanumeric, show Text.isDigit first = false by simpa using hdigit] using hfirst

/-- The name of a class is an identifier, whatever the name of its target is. -/
theorem isIdentifier_className (name : String) : IsIdentifier (className name) := by
  have hruns : ∀ c ∈ (alphanumericRuns name.toList).flatMap capitalized,
      Text.isAlphanumeric c = true := by
    intro c hc
    obtain ⟨run, hrun, hc⟩ := List.mem_flatMap.1 hc
    exact isAlphanumeric_of_mem_capitalized (isAlphanumeric_of_mem_runs hrun) c hc
  unfold className
  dsimp only
  generalize (alphanumericRuns name.toList).flatMap capitalized = words at hruns ⊢
  have hne : (if words.isEmpty then "Target".toList else words) ≠ [] := by split <;> simp_all
  have hall : ∀ c ∈ if words.isEmpty then "Target".toList else words, Text.isAlphanumeric c = true := by
    split
    · exact List.all_eq_true.1 (by decide)
    · exact hruns
  obtain ⟨first, rest, hbase, hfirst, hrest⟩ := exists_letter_cons hne hall
  rw [hbase]
  refine ⟨first, rest ++ "Constraint".toList, by simp, hfirst, fun c hc => ?_⟩
  rcases List.mem_append.1 hc with hc | hc
  · exact hrest c hc
  · have hword : ∀ c ∈ "Constraint".toList, Text.isAlphanumeric c = true := List.all_eq_true.1 (by decide)
    exact hword c hc

/-- An identifier is in ASCII. -/
theorem IsIdentifier.inAscii {s : String} (h : IsIdentifier s) : InAscii s := by
  have halphanumeric {c : Char} (hc : Text.isAlphanumeric c = true) : Json.InAscii c :=
    Text.forall_of_isAlphanumeric (by decide) hc
  obtain ⟨first, rest, hlist, hfirst, hrest⟩ := h
  intro c hc
  rw [hlist] at hc
  rcases List.mem_cons.1 hc with rfl | hc
  · refine halphanumeric ?_
    unfold Text.isAlphanumeric
    rw [Bool.or_assoc, hfirst, Bool.or_true]
  · exact halphanumeric (hrest c hc)

/-- A quoted text is in ASCII. -/
theorem inAscii_quote (text : String) : InAscii (Json.quote text) := by
  intro c hc
  rw [Json.quote, String.toList_ofList] at hc
  exact Json.inAscii_of_mem_quoteChars hc

/-! ## Documents -/

namespace Json

/-- The digits of a number are decimal digits. -/
theorem isDigit_of_mem_repr {n : Nat} {c : Char} (h : c ∈ n.repr.toList) : Text.isDigit c = true := by
  rw [Nat.repr_eq_ofList_toDigits, String.toList_ofList] at h
  have hdigit := Nat.isDigit_of_mem_toDigits (by decide) (by decide) h
  simpa [Char.isDigit, Text.isDigit, Char.le_def] using hdigit

/-- A number is in ASCII. -/
theorem isAscii_int (n : Int) : IsAscii (toString n) := by
  have hdigits (n : Nat) : IsAscii n.repr := fun c hc =>
    Text.forall_of_isAlphanumeric (p := fun c => c.toNat < 128) (by decide)
      (by simp [Text.isAlphanumeric, isDigit_of_mem_repr hc])
  cases n with
  | ofNat n => exact hdigits n
  | negSucc n => exact IsAscii.append (a := "-") (by decide) (hdigits n.succ)

/-- Items in ASCII are in ASCII between brackets. -/
theorem isAscii_bracketed {left right : String} (hleft : IsAscii left) (hright : IsAscii right) (depth : Nat)
    {items : List String} (h : ∀ item ∈ items, IsAscii item) : IsAscii (bracketed left right depth items) := by
  have hmargin (depth : Nat) : IsAscii (margin depth) := by
    intro c hc
    rw [margin, String.toList_ofList] at hc
    rw [List.eq_of_mem_replicate hc]
    decide
  unfold bracketed
  split
  · exact hleft.append hright
  · have hlines : IsAscii (String.intercalate ",\n" (items.map (margin (depth + 1) ++ ·))) := by
      refine IsAscii.intercalate (by decide) fun line hline => ?_
      obtain ⟨item, hitem, rfl⟩ := List.mem_map.1 hline
      exact (hmargin _).append (h item hitem)
    exact ((((hleft.append (by decide)).append hlines).append (by decide)).append (hmargin depth)).append hright

mutual

/-- A document is rendered in ASCII at every depth. -/
theorem isAscii_renderAt (depth : Nat) (j : Json) : IsAscii (renderAt depth j) := by
  cases j with
  | null =>
    show IsAscii "null"
    decide
  | bool b =>
    show IsAscii (if b then "true" else "false")
    cases b <;> decide
  | int n => exact isAscii_int n
  | str s => exact (inAscii_quote s).isAscii
  | arr items => exact isAscii_bracketed (by decide) (by decide) depth (isAscii_renderItems (depth + 1) items)
  | obj members => exact isAscii_bracketed (by decide) (by decide) depth (isAscii_renderMembers (depth + 1) members)

/-- The items of an array are rendered in ASCII. -/
theorem isAscii_renderItems (depth : Nat) (items : List Json) : ∀ item ∈ renderItems depth items, IsAscii item := by
  cases items with
  | nil => exact fun _ h => nomatch h
  | cons item rest =>
    exact List.forall_mem_cons.2 ⟨isAscii_renderAt depth item, isAscii_renderItems depth rest⟩

/-- The members of an object are rendered in ASCII. -/
theorem isAscii_renderMembers (depth : Nat) (members : List (String × Json)) :
    ∀ item ∈ renderMembers depth members, IsAscii item := by
  cases members with
  | nil => exact fun _ h => nomatch h
  | cons member rest =>
    obtain ⟨name, value⟩ := member
    refine List.forall_mem_cons.2 ⟨?_, isAscii_renderMembers depth rest⟩
    exact ((inAscii_quote name).isAscii.append (by decide)).append (isAscii_renderAt depth value)

end

/-- A document is rendered in ASCII, whatever its strings are. -/
theorem isAscii_render (j : Json) : IsAscii j.render :=
  isAscii_renderAt 0 j

end Json

/-- A manifest is written in ASCII. -/
theorem Manifest.isAscii_text (m : Manifest) : IsAscii m.text :=
  Json.isAscii_render _

/-- There are bytes for what is written to the file of a manifest. -/
theorem Manifest.hasHalf_text (m : Manifest) : Text.hasHalf (m.text ++ "\n") = false :=
  (m.isAscii_text.append (by decide)).hasHalf_eq_false

/-- The index of versions is written in ASCII. -/
theorem VersionIndex.isAscii_text (versions : List (String × String)) : IsAscii (text versions) :=
  (Json.isAscii_render _).append (by decide)

end ProviderBindings
