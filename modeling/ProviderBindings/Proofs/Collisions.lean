import Mathlib.Data.List.Pairwise
import ProviderBindings.Proofs.Emitting

/-!
# Names that collide

The check for collisions goes through names with a table of the keys that came before. What it is after is told
here without the table: names are `Distinct` when all of them resolve, to constraints with different keys, and an
`Objection` to one more name is that it does not resolve or that exactly one of the earlier names has its key.
`checkCollisions_outcome` says that distinct names pass and no others, and that the check fails about the first
name to which there is an objection.
-/

namespace ProviderBindings

variable {language : Language} {kind : TargetKind} {names seen : List String} {name other key : String}

/-- The key that a name is stored under, if it resolves. -/
def keyOf? (language : Language) (kind : TargetKind) (name : String) : Option String :=
  (Constraint.resolve name).toOption.map fun c => outputKey language (c.source kind)

/-- The key of a name that resolves is that of its constraint. -/
theorem keyOf?_of_resolve {c : Constraint} (h : Constraint.resolve name = .ok c) :
    keyOf? language kind name = some (outputKey language (c.source kind)) := by
  rw [keyOf?, h]
  rfl

/-- Whether names resolve to constraints with different keys. -/
structure Distinct (language : Language) (kind : TargetKind) (names : List String) : Prop where
  /-- Each of the names resolves. -/
  resolves : ∀ name ∈ names, ∃ c, Constraint.resolve name = .ok c
  /-- No two of them have one key. -/
  keys : names.Pairwise fun a b => keyOf? language kind a ≠ keyOf? language kind b

/-- What can be said against a name that comes after others. -/
inductive Objection (language : Language) (kind : TargetKind) (earlier : List String) (name : String) :
    ResolutionFault → Prop
  /-- It does not resolve. -/
  | malformed {fault} (h : Constraint.resolve name = .error fault) : Objection language kind earlier name fault
  /-- It has the key of an earlier name, and of no more than one. -/
  | collides {c other} (h : Constraint.resolve name = .ok c) (hother : other ∈ earlier)
      (hkey : ∀ another ∈ earlier,
        keyOf? language kind another = some (outputKey language (c.source kind)) ↔ another = other) :
      Objection language kind earlier name (.collision other kind (outputKey language (c.source kind)))

namespace Distinct

/-- No two of distinct names have one key. -/
theorem eq_of_keyOf? (h : Distinct language kind names) (hname : name ∈ names) (hother : other ∈ names)
    (hkey : keyOf? language kind name = keyOf? language kind other) : name = other := by
  have : Std.Symm fun a b => keyOf? language kind a ≠ keyOf? language kind b := ⟨fun _ _ => Ne.symm⟩
  by_contra hne
  exact h.keys.forall hname hother hne hkey

/-- Distinct names stay so with one more at the end that resolves to a constraint with a new key. -/
theorem concat_iff :
    Distinct language kind (seen ++ [name]) ↔ Distinct language kind seen ∧
      ∃ c, Constraint.resolve name = .ok c ∧
        ∀ other ∈ seen, keyOf? language kind other ≠ some (outputKey language (c.source kind)) := by
  constructor
  · intro h
    obtain ⟨c, hc⟩ := h.resolves name (by simp)
    obtain ⟨hseen, -, hnew⟩ := List.pairwise_append.1 h.keys
    refine ⟨⟨fun other ho => h.resolves other (List.mem_append_left _ ho), hseen⟩, c, hc, fun other ho => ?_⟩
    rw [← keyOf?_of_resolve hc]
    exact hnew other ho name (by simp)
  · rintro ⟨h, c, hc, hnew⟩
    refine ⟨fun other ho => ?_, List.pairwise_append.2 ⟨h.keys, by simp, fun other ho last hlast => ?_⟩⟩
    · rcases List.mem_append.1 ho with ho | ho
      · exact h.resolves other ho
      · obtain rfl := List.mem_singleton.1 ho
        exact ⟨c, hc⟩
    · obtain rfl := List.mem_singleton.1 hlast
      rw [keyOf?_of_resolve hc]
      exact hnew other ho

end Distinct

/-- What an error about two names with one key says. -/
theorem ResolutionFault.message_collision (earlier : String) (kind : TargetKind) (key : String) :
    (ResolutionFault.collision earlier kind key).message =
      "collides with '" ++ earlier ++ "': both produce " ++ kind.label ++ " '" ++ key ++ "'" :=
  calc
    _ = s!"collides with '{earlier}': both produce " ++ kind.label ++ s!" '{key}'" := rfl
    _ = _ := by simp only [toString, String.append_assoc]

/-- There is no objection to the last of distinct names. -/
theorem Objection.not_distinct {fault : ResolutionFault} (h : Objection language kind seen name fault) :
    ¬Distinct language kind (seen ++ [name]) := by
  rw [Distinct.concat_iff]
  rintro ⟨-, d, hd, hnew⟩
  cases h with
  | malformed h =>
    rw [h] at hd
    cases hd
  | @collides c other h hother hkey =>
    obtain rfl : c = d := Except.ok.inj (h.symm.trans hd)
    exact hnew other hother ((hkey other hother).2 rfl)

/-- The table of the keys of names, as the check has it when it went through them. -/
def keyTable (language : Language) (kind : TargetKind) (seen : List String) : List (String × String) :=
  seen.filterMap fun name => (keyOf? language kind name).map (·, name)

/-- The table grows by the key of a name that resolves. -/
theorem keyTable_concat {c : Constraint} (h : Constraint.resolve name = .ok c) :
    keyTable language kind (seen ++ [name]) =
      keyTable language kind seen ++ [(outputKey language (c.source kind), name)] := by
  unfold keyTable
  simp [keyOf?_of_resolve h]

/-- Under a key the table of distinct names has the name that has it. -/
theorem get?_keyTable (h : Distinct language kind seen) :
    Assoc.get? key (keyTable language kind seen) = some other ↔
      other ∈ seen ∧ keyOf? language kind other = some key := by
  have hmem {key name : String} : (key, name) ∈ keyTable language kind seen ↔
      name ∈ seen ∧ keyOf? language kind name = some key := by
    simp only [keyTable, List.mem_filterMap, Option.map_eq_some_iff, Prod.mk.injEq]
    constructor
    · rintro ⟨_, hin, _, hk, rfl, rfl⟩
      exact ⟨hin, hk⟩
    · rintro ⟨hin, hk⟩
      exact ⟨name, hin, key, hk, rfl, rfl⟩
  refine ⟨fun hget => hmem.1 (Assoc.mem_of_get?_eq_some hget), fun hother => ?_⟩
  have hlisted : (Assoc.get? key (keyTable language kind seen)).isSome :=
    (Assoc.isSome_get? _ _).2 (List.mem_map.2 ⟨_, hmem.2 hother, rfl⟩)
  obtain ⟨found, hfound⟩ := Option.isSome_iff_exists.1 hlisted
  obtain ⟨hin, hkey⟩ := hmem.1 (Assoc.mem_of_get?_eq_some hfound)
  rw [hfound, h.eq_of_keyOf? hin hother.1 (hkey.trans hother.2.symm)]

/-- After names that are distinct the check passes names that are distinct together with these, or fails about the
first of them to which there is an objection. -/
theorem checkCollisions_go_outcome (hseen : Distinct language kind seen) (names : List String) :
    (checkCollisions.go language kind (keyTable language kind seen) names = .ok () ∧
        Distinct language kind (seen ++ names)) ∨
      ∃ earlier name later fault, names = earlier ++ name :: later ∧ Distinct language kind (seen ++ earlier) ∧
        Objection language kind (seen ++ earlier) name fault ∧
        checkCollisions.go language kind (keyTable language kind seen) names =
          .error (.generation { cause := .resolution fault, target := name, stage := "resolve" }) := by
  -- on the names; those that were seen stay distinct, and the table is that of their keys
  induction names generalizing seen with
  | nil => exact .inl ⟨rfl, by simpa using hseen⟩
  | cons name rest ih =>
    cases hr : Constraint.resolve name with
    | error fault =>
      refine .inr ⟨[], name, rest, fault, rfl, by simpa using hseen, .malformed hr, ?_⟩
      exact checkCollisions_go_malformed hr _ rest
    | ok c =>
      rw [checkCollisions_go_cons hr]
      cases hkey : Assoc.get? (outputKey language (c.source kind)) (keyTable language kind seen) with
      | some other =>
        obtain ⟨hother, hsame⟩ := (get?_keyTable hseen).1 hkey
        -- no other earlier name has the key, as they are distinct
        refine .inr ⟨[], name, rest, _, rfl, by simpa using hseen, .collides hr (by simpa using hother) ?_, rfl⟩
        intro another ha
        rw [List.append_nil] at ha
        exact ⟨fun h => hseen.eq_of_keyOf? ha hother (h.trans hsame.symm), fun h => h ▸ hsame⟩
      | none =>
        have hmore : Distinct language kind (seen ++ [name]) := by
          refine Distinct.concat_iff.2 ⟨hseen, c, hr, fun other ho hsame => ?_⟩
          rw [(get?_keyTable hseen).2 ⟨ho, hsame⟩] at hkey
          cases hkey
        dsimp only
        rw [← keyTable_concat hr]
        rcases ih hmore with ⟨hpass, hall⟩ | ⟨earlier, who, later, fault, rfl, hearlier, hobjection, hfails⟩
        · exact .inl ⟨hpass, by simpa using hall⟩
        · refine .inr ⟨name :: earlier, who, later, fault, rfl, ?_, ?_, hfails⟩
          · simpa using hearlier
          · simpa using hobjection

/-- **Which names pass the check for collisions, and which name it blames.** Names pass exactly when all of them
resolve, to constraints with different keys. Otherwise the error is one of resolution, in the stage for that, about the
first name that does not resolve or has the key of an earlier one; in the latter case it tells the only earlier name with
that key. -/
theorem checkCollisions_outcome (names : List String) (language : Language) (kind : TargetKind) :
    (checkCollisions names language kind = .ok () ↔ Distinct language kind names) ∧
      ∀ failure, checkCollisions names language kind = .error failure →
        ∃ earlier name later fault, names = earlier ++ name :: later ∧ Distinct language kind earlier ∧
          Objection language kind earlier name fault ∧
          failure = .generation { cause := .resolution fault, target := some name, stage := some "resolve" } ∧
          ∀ other key, fault = .collision other kind key →
            failure.text = "collides with '" ++ other ++ "': both produce " ++ kind.label ++ " '" ++ key ++ "'" := by
  have hnone : Distinct language kind [] := ⟨by simp, .nil⟩
  rcases checkCollisions_go_outcome hnone names with
    ⟨hpass, hall⟩ | ⟨earlier, name, later, fault, rfl, hearlier, hobjection, hfails⟩
  · have hcheck : checkCollisions names language kind = .ok () := hpass
    refine ⟨iff_of_true hcheck hall, fun failure h => ?_⟩
    rw [hcheck] at h
    cases h
  · have hcheck : checkCollisions (earlier ++ name :: later) language kind =
        .error (.generation { cause := .resolution fault, target := name, stage := "resolve" }) := hfails
    constructor
    · refine iff_of_false (fun h => ?_) fun h => ?_
      · rw [hcheck] at h
        cases h
      · have hsub : (earlier ++ [name]).Sublist (earlier ++ name :: later) :=
          List.append_cons earlier name later ▸ List.sublist_append_left ..
        exact hobjection.not_distinct ⟨fun other ho => h.resolves other (hsub.subset ho), h.keys.sublist hsub⟩
    · intro failure h
      rw [hcheck] at h
      cases h
      refine ⟨earlier, name, later, fault, rfl, hearlier, hobjection, rfl, fun other key hfault => ?_⟩
      rw [hfault]
      exact ResolutionFault.message_collision other kind key

end ProviderBindings
