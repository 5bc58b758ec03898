import ProviderBindings.Proofs.FileSystem.Making
import ProviderBindings.Proofs.FileSystem.Resolving
import ProviderBindings.Proofs.Placing

/-!
# Texts of paths as they stand

A text can spell a path with dots and doubled slashes that the path itself does not keep. A walk along the text meets
the names of the path, padded with names that stay where they are. None of these is `Padded` at the end, since a slash
or a dot there makes a difference: it wants a directory. Anywhere else a walk passes them by (`Leads.padded`), so
that a text leads to what its path leads to, as long as it is not too long as it stands (`glance_of_status`).
-/

namespace ProviderBindings

namespace FileSystem

variable {fs : FileSystem}

/-- Names that are others with names put in front of them that stay where they are. -/
inductive Padded : List String → List String → Prop
  | nil : Padded [] []
  | cons {idles rest padded : List String} {name : String} (hidles : ∀ idle ∈ idles, isIdle idle = true)
      (hrest : Padded rest padded) : Padded (name :: rest) (idles ++ name :: padded)

/-- The same name before both of them makes no difference. -/
theorem Padded.cons_cons {rest padded : List String} (name : String) (h : Padded rest padded) :
    Padded (name :: rest) (name :: padded) :=
  .cons (List.forall_mem_nil _) h

/-- The same names before both of them make no difference. -/
theorem Padded.append_left {rest padded : List String} (h : Padded rest padded) (front : List String) :
    Padded (front ++ rest) (front ++ padded) := by
  induction front with
  | nil => exact h
  | cons name front ih => exact ih.cons_cons name

/-- Names of which the last does not stay where it is are padded with those that do. -/
theorem padded_filter {names : List String} (hlast : ∀ name ∈ names.getLast?, isIdle name = false) :
    Padded (names.filter fun name => !isIdle name) names := by
  induction names with
  | nil => exact .nil
  | cons name rest ih =>
    by_cases hidle : isIdle name = true
    · -- the name is put in front of the first that is kept, and there is one
      have hne : rest ≠ [] := by
        rintro rfl
        rw [hlast name rfl] at hidle
        cases hidle
      have hrest : Padded (rest.filter fun name => !isIdle name) rest := by
        refine ih fun last hmem => hlast last ?_
        rw [List.getLast?_cons, Option.mem_def.1 hmem]
        rfl
      rw [List.filter_cons_of_neg (by simp [hidle])]
      generalize (rest.filter fun name => !isIdle name) = kept at hrest
      cases hrest with
      | nil => exact absurd rfl hne
      | @cons idles kept padded first hidles hkept =>
        exact .cons (List.forall_mem_cons.2 ⟨hidle, hidles⟩) hkept
    · rw [List.filter_cons_of_pos (by simpa using hidle)]
      refine .cons_cons name (ih fun last hmem => hlast last ?_)
      rw [List.getLast?_cons, Option.mem_def.1 hmem]
      rfl

/-- Names that stay where they are can be put in front of any. -/
theorem Leads.of_idles {ending : Ending} {links : Nat} {here place : Location} {idles rest : List String}
    (hidles : ∀ idle ∈ idles, isIdle idle = true) (h : fs.Leads ending links here rest place) :
    fs.Leads ending links here (idles ++ rest) place := by
  induction idles with
  | nil => exact h
  | cons idle idles ih =>
    obtain ⟨hidle, hmore⟩ := List.forall_mem_cons.1 hidles
    exact .idle hidle (ih hmore)

/-- Padded names lead where the names lead. -/
theorem Leads.padded {links : Nat} {here place : Location} {names padded : List String}
    (h : fs.Leads .follow links here names place) (hp : Padded names padded) :
    fs.Leads .follow links here padded place := by
  -- on the way that the names lead; what pads a name is passed before it
  induction h generalizing padded with
  | done =>
    cases hp
    exact .done
  | idle hidle _ ih =>
    cases hp with
    | cons hidles hrest => exact .of_idles hidles (.idle hidle (ih hrest))
  | up _ ih =>
    cases hp with
    | cons hidles hrest => exact .of_idles hidles (.up (ih hrest))
  | enter hpass hdir _ ih =>
    cases hp with
    | cons hidles hrest => exact .of_idles hidles (.enter (hpass.of_ending nofun) hdir (ih hrest))
  | last hpass hdir hlink =>
    cases hp with
    | cons hidles hrest =>
      cases hrest
      exact .of_idles hidles (.last hpass hdir hlink)
  | link hpass hlink hkeep _ ih =>
    cases hp with
    | cons hidles hrest =>
      exact .of_idles hidles (.link (hpass.of_ending nofun) hlink nofun (ih (hrest.append_left _)))

end FileSystem

namespace Path

open FileSystem

/-- A path is absolute when its text starts with a slash. -/
theorem isAbsolute_ofString (s : String) : (ofString s).isAbsolute = s.startsWith "/" := by
  rw [Bool.eq_iff_iff, startsWith_slash_iff]
  unfold isAbsolute ofString anchorOf
  rcases s.toList with _ | ⟨c, cs⟩
  · simp
  · by_cases hc : c = '/'
    · subst hc
      split <;> simp_all
    · split <;> simp_all

/-- The names of a path are those that a walk along its text meets and that do not stay where they are. -/
theorem names_ofString (s : String) :
    (ofString s).names = (Route.ofString s).names.filter fun name => !isIdle name := by
  rw [← filter_split_eq_filter_route]
  refine List.filter_congr fun name _ => ?_
  rw [isIdle, Bool.not_or]
  rfl

/-- A text is faultless when the text of its path is. -/
theorem ofText?_of_ofString {s : String} (h : PathFault.ofText? (ofString s).text = none) :
    PathFault.ofText? s = none := by
  rw [← Text.intercalate_split s, PathFault.ofText?_intercalate]
  intro piece hpiece
  by_cases hkept : piece ∈ namesOf s
  · exact PathFault.ofText?_text.1 h piece hkept
  · -- what the path leaves out is empty or a dot
    have hidle : piece = "" ∨ piece = "." := by
      rw [namesOf, List.mem_filter, not_and, Bool.and_eq_true, bne_iff_ne, bne_iff_ne] at hkept
      have hone := hkept hpiece
      tauto
    rcases hidle with rfl | rfl <;> decide

end Path

/-- The last name that a walk along a text meets is the last piece of the text, where that does not stay where it is. -/
theorem Route.getLast?_names {s : String}
    (hlast : ∀ piece ∈ (Text.split '/' s).getLast?, FileSystem.isIdle piece = false) :
    ∀ name ∈ (Route.ofString s).names.getLast?, FileSystem.isIdle name = false := by
  obtain ⟨front, last, hsplit⟩ : ∃ front last, Text.split '/' s = front ++ [last] :=
    ⟨_, _, (List.dropLast_append_getLast (Text.split_ne_nil s)).symm⟩
  rw [hsplit, List.getLast?_concat] at hlast
  have hidle := hlast last rfl
  have hne : last ≠ "" := by
    rintro rfl
    cases hidle
  have hnames : (Route.ofString s).names = front.filter (· != "") ++ [last] := by
    unfold Route.ofString
    simp [hsplit, hne]
  rw [hnames, List.getLast?_concat]
  rintro name ⟨⟩
  exact hidle

/-- A text that does not end in a slash or a dot and is not too long leads to what its path leads to. -/
theorem FileSystem.glance_of_status {fs : FileSystem} {s : String} {entry : Entry}
    (hsize : s.utf8ByteSize ≤ maxPathSize) (hlast : ∀ piece ∈ (Text.split '/' s).getLast?, isIdle piece = false)
    (h : fs.status .follow (Path.ofString s) = .ok (some entry)) : fs.glance s = some entry := by
  obtain ⟨hfault, place, hlocate, hentry⟩ := status_eq_some_iff.1 h
  obtain ⟨-, links, hlinks, hleads⟩ := locate_eq_ok_iff.1 hlocate
  rw [Path.names_ofString] at hleads
  have hwhole := hleads.padded (padded_filter (Route.getLast?_names hlast))
  have hempty : ¬s.isEmpty = true := by
    intro he
    rw [String.isEmpty_iff] at he
    subst he
    have hidle := hlast "" rfl
    cases hidle
  have hstart : (if (Route.ofString s).fromRoot then [] else fs.workingDirectory) = fs.startOf (Path.ofString s) := by
    unfold startOf
    rw [Path.isAbsolute_ofString]
    rfl
  have htext : fs.locateText .follow s = .ok place := by
    unfold locateText locateRoute
    rw [if_neg hempty, if_neg (Nat.not_lt.2 hsize), hstart]
    exact locateFrom_of_leads hwhole hlinks
  unfold glance
  rw [Path.ofText?_of_ofString hfault, htext]
  exact hentry

end ProviderBindings
