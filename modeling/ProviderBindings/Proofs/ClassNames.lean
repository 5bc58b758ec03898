import ProviderBindings.Proofs.Sources

/-!
# What the name of a class keeps

The name of a target is free text, and the name of its class is made of the letters and digits in it. Which of them
belong together is said by `HasRuns`, which cuts characters at everything else and does not split them as
`alphanumericRuns` does; the two agree (`hasRuns_iff`), so that there is one way to cut a text.

`className_spelled` says what becomes of the runs: each starts with a capital, and beside that none of their characters
is lost, moved or changed. Only a T may come in front, and a word in their place if there are none.
-/

namespace ProviderBindings

/-! ## Runs of letters and digits -/

/-- Which runs of letters and digits characters have, in their order. A run is as long as it can be: what stands before
it and after it is neither letter nor digit. -/
inductive HasRuns : List Char → List (List Char) → Prop
  | none {gap : List Char} (hgap : ∀ c ∈ gap, Text.isAlphanumeric c = false) : HasRuns gap []
  | run {gap run rest : List Char} {runs : List (List Char)} (hgap : ∀ c ∈ gap, Text.isAlphanumeric c = false)
      (hne : run ≠ []) (hrun : ∀ c ∈ run, Text.isAlphanumeric c = true)
      (hend : ∀ c ∈ rest.head?, Text.isAlphanumeric c = false) (hrest : HasRuns rest runs) :
      HasRuns (gap ++ (run ++ rest)) (run :: runs)

/-- A run may stand at the start. -/
theorem HasRuns.cons {run rest : List Char} {runs : List (List Char)} (hne : run ≠ [])
    (hrun : ∀ c ∈ run, Text.isAlphanumeric c = true) (hend : ∀ c ∈ rest.head?, Text.isAlphanumeric c = false)
    (hrest : HasRuns rest runs) : HasRuns (run ++ rest) (run :: runs) :=
  @HasRuns.run [] run rest runs (fun _ h => by cases h) hne hrun hend hrest

/-- All characters have runs. -/
theorem exists_hasRuns (cs : List Char) : ∃ runs, HasRuns cs runs := by
  induction cs with
  | nil => exact ⟨[], .none (by simp)⟩
  | cons c cs ih =>
    obtain ⟨runs, hruns⟩ := ih
    cases hc : Text.isAlphanumeric c with
    | false =>
      -- the character belongs to what stands before the first run
      have hmore {gap : List Char} (hgap : ∀ d ∈ gap, Text.isAlphanumeric d = false) :
          ∀ d ∈ c :: gap, Text.isAlphanumeric d = false := by simpa [hc] using hgap
      cases hruns with
      | none hgap => exact ⟨[], .none (hmore hgap)⟩
      | run hgap hne hrun hend hrest => exact ⟨_, .run (hmore hgap) hne hrun hend hrest⟩
    | true =>
      have halone : ∀ d ∈ [c], Text.isAlphanumeric d = true := by simpa using hc
      cases hruns with
      | none hgap =>
        exact ⟨[[c]], .cons (by simp) halone (fun d hd => hgap d (List.mem_of_head? hd)) (.none hgap)⟩
      | @run gap run rest runs hgap hne hrun hend hrest =>
        cases gap with
        | nil =>
          -- the character belongs to the run that comes next
          exact ⟨(c :: run) :: runs, .cons (List.cons_ne_nil _ _) (by simpa [hc] using hrun) hend hrest⟩
        | cons d gap =>
          exact ⟨[c] :: run :: runs, .cons (by simp) halone (by simpa using hgap d (by simp))
            (.run hgap hne hrun hend hrest)⟩

/-- Together the runs are the letters and digits there are. -/
theorem HasRuns.flatten {cs : List Char} {runs : List (List Char)} (h : HasRuns cs runs) :
    runs.flatten = cs.filter Text.isAlphanumeric := by
  have hno {gap : List Char} (hgap : ∀ c ∈ gap, Text.isAlphanumeric c = false) :
      gap.filter Text.isAlphanumeric = [] := List.filter_eq_nil_iff.2 fun c hc => by simp [hgap c hc]
  induction h with
  | none hgap => rw [hno hgap, List.flatten_nil]
  | run hgap _ hrun _ _ ih =>
    rw [List.filter_append, List.filter_append, hno hgap, List.nil_append, List.filter_eq_self.2 hrun, ← ih,
      List.flatten_cons]

/-- Whatever comes first belongs to the pieces as their first characters. -/
theorem alphanumericRuns_go_append {run rest first : List Char} {pieces : List (List Char)}
    (hrun : ∀ c ∈ run, Text.isAlphanumeric c = true) (hrest : alphanumericRuns.go rest = first :: pieces) :
    alphanumericRuns.go (run ++ rest) = (run ++ first) :: pieces := by
  induction run with
  | nil => exact hrest
  | cons c run ih =>
    obtain ⟨hc, hrun⟩ := List.forall_mem_cons.1 hrun
    rw [List.cons_append, alphanumericRuns.go, if_pos hc, ih hrun]
    rfl

/-- The runs are what a text is split into. -/
theorem HasRuns.eq_alphanumericRuns {cs : List Char} {runs : List (List Char)} (h : HasRuns cs runs) :
    alphanumericRuns cs = runs := by
  have hskip {gap : List Char} (hgap : ∀ c ∈ gap, Text.isAlphanumeric c = false) (rest : List Char) :
      alphanumericRuns (gap ++ rest) = alphanumericRuns rest := by
    induction gap with
    | nil => rfl
    | cons c gap ih =>
      obtain ⟨hc, hgap⟩ := List.forall_mem_cons.1 hgap
      rw [← ih hgap]
      simp [alphanumericRuns, alphanumericRuns.go, hc]
  induction h with
  | @none gap hgap =>
    have hall := hskip hgap []
    rw [List.append_nil] at hall
    rw [hall]
    rfl
  | @run gap run rest runs hgap hne hrun hend _ ih =>
    -- the pieces of what comes next start with nothing
    obtain ⟨pieces, hpieces⟩ : ∃ pieces, alphanumericRuns.go rest = [] :: pieces := by
      cases rest with
      | nil => exact ⟨[], rfl⟩
      | cons c rest => exact ⟨alphanumericRuns.go rest, by rw [alphanumericRuns.go, if_neg (by simp [hend c rfl])]⟩
    have hnow := alphanumericRuns_go_append hrun hpieces
    rw [hskip hgap, ← ih]
    simp [alphanumericRuns, hnow, hpieces, hne]

/-- There is one way to cut characters into runs. -/
theorem hasRuns_iff {cs : List Char} {runs : List (List Char)} : HasRuns cs runs ↔ runs = alphanumericRuns cs := by
  refine ⟨fun h => h.eq_alphanumericRuns.symm, ?_⟩
  rintro rfl
  obtain ⟨runs, h⟩ := exists_hasRuns cs
  rwa [h.eq_alphanumericRuns]

/-! ## Capitals -/

/-- The words that runs make, one after another, each with its first character as a capital. -/
def joinedWords (runs : List (List Char)) : List Char :=
  runs.flatMap fun run => (run.take 1).map Char.toUpper ++ run.drop 1

/-- A run of letters and digits is made a word. -/
theorem capitalized_eq {run : List Char} (h : ∀ c ∈ run, Text.isAlphanumeric c = true) :
    capitalized run = (run.take 1).map Char.toUpper ++ run.drop 1 := by
  cases run with
  | nil => rfl
  | cons c run =>
    have hupper : Text.upperChar c = c.toUpper :=
      Text.forall_of_isAlphanumeric (p := fun c => Text.upperChar c = c.toUpper) (by decide) (h c (by simp))
    simp [capitalized, hupper]

/-- The runs of a text are made its words. -/
theorem flatMap_capitalized (cs : List Char) :
    (alphanumericRuns cs).flatMap capitalized = joinedWords (alphanumericRuns cs) := by
  unfold joinedWords
  rw [List.flatMap_congr]
  exact fun run hrun => capitalized_eq (isAlphanumeric_of_mem_runs hrun)

/-- The characters of words are those of the runs, in their places, as they are or as capitals. -/
theorem forall₂_joinedWords (runs : List (List Char)) :
    List.Forall₂ (fun c d => d = c ∨ d = c.toUpper) runs.flatten (joinedWords runs) := by
  have hsame (cs : List Char) : List.Forall₂ (fun c d => d = c ∨ d = c.toUpper) cs cs :=
    List.forall₂_same.2 fun c _ => .inl rfl
  unfold joinedWords
  induction runs with
  | nil => exact .nil
  | cons run runs ih =>
    rw [List.flatten_cons, List.flatMap_cons]
    refine List.rel_append ?_ ih
    cases run with
    | nil => exact .nil
    | cons c run => exact .cons (.inr rfl) (hsame run)

/-- What stands in front of the last word in the name of a class: the words of the runs, with a T in front of a digit, or
a word for those that are missing. -/
inductive IsStem (runs : List (List Char)) : List Char → Prop
  | target (hruns : runs = []) : IsStem runs "Target".toList
  | digit {c : Char} {cs : List Char} (hruns : joinedWords runs = c :: cs) (hdigit : Text.isDigit c = true) :
      IsStem runs ('T' :: c :: cs)
  | letter {c : Char} {cs : List Char} (hruns : joinedWords runs = c :: cs) (hletter : Text.isDigit c = false) :
      IsStem runs (c :: cs)

/-- Without words there are no runs. -/
theorem alphanumericRuns_eq_nil {cs : List Char} (h : joinedWords (alphanumericRuns cs) = []) :
    alphanumericRuns cs = [] := by
  have hflat : (alphanumericRuns cs).flatten = [] := by
    have hsame := forall₂_joinedWords (alphanumericRuns cs)
    rwa [h, List.forall₂_nil_right_iff] at hsame
  refine List.eq_nil_iff_forall_not_mem.2 fun run hrun => ?_
  have hne : run ≠ [] := by simpa using (List.mem_filter.1 hrun).2
  exact hne (List.flatten_eq_nil_iff.1 hflat run hrun)

/-- The name of a class is its stem with the word Constraint. -/
theorem exists_isStem (name : String) :
    ∃ stem, IsStem (alphanumericRuns name.toList) stem ∧ className name = String.ofList stem ++ "Constraint" := by
  refine ⟨_, ?_, rfl⟩
  rw [flatMap_capitalized]
  cases hwords : joinedWords (alphanumericRuns name.toList) with
  | nil => exact .target (alphanumericRuns_eq_nil hwords)
  | cons c cs =>
    simp only [List.isEmpty_cons, Bool.false_eq_true, if_false, List.head?_cons, Option.any_some]
    split
    · next hdigit => exact .digit hwords hdigit
    · next hletter => exact .letter hwords (by simpa using hletter)

/-- **How a class is named.** Every name has one list of runs of letters and digits, and they are all its letters and
digits. The name of the class is an identifier, made of a stem and the word Constraint. The stem is that of the runs, so
that every letter and digit of the name stands in it, in its place, as it is or as a capital. -/
theorem className_spelled (name : String) :
    ∃ runs stem, (∀ other, HasRuns name.toList other ↔ other = runs) ∧
      runs.flatten = name.toList.filter Text.isAlphanumeric ∧
      IsIdentifier (className name) ∧ className name = String.ofList stem ++ "Constraint" ∧ IsStem runs stem ∧
      List.Forall₂ (fun c d => d = c ∨ d = c.toUpper) (name.toList.filter Text.isAlphanumeric) (joinedWords runs) := by
  have hruns : HasRuns name.toList (alphanumericRuns name.toList) := hasRuns_iff.2 rfl
  have hflat := hruns.flatten
  obtain ⟨stem, hstem, hname⟩ := exists_isStem name
  exact ⟨_, stem, fun other => hasRuns_iff, hflat, isIdentifier_className name, hname, hstem,
    hflat ▸ forall₂_joinedWords _⟩

/-- A name with digits in front and characters of another script in it. -/
example : className "9é-google_beta" = "T9GoogleBetaConstraint" := by decide +kernel

end ProviderBindings
