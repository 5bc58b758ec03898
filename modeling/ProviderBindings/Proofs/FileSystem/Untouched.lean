import ProviderBindings.Proofs.FileSystem.Likeness
import ProviderBindings.Proofs.FileSystem.Removing

/-!
# What is left untouched

The frame of a step: a zone of places at which nothing was changed. The one thing that every step may change
is the log file, to which notices are added wherever it lies; `Untouched` lets it grow, and keeps that no
other file becomes the log file. Steps that leave one zone untouched compose (`Untouched.trans`), and what
was made and removed again leaves everything untouched (`Untouched.removed`).
-/

namespace ProviderBindings.FileSystem

variable {fs t u : FileSystem} {zone zone' : Location → Prop}

/-- Whether a location is below another. -/
def Below (top location : Location) : Prop :=
  top <+: location ∧ location ≠ top

/-- What names lead to from a location is below it. -/
theorem below_append {top more : Location} (hne : more ≠ []) : Below top (top ++ more) :=
  ⟨List.prefix_append _ _, fun he => hne (List.append_right_eq_self.1 he)⟩

/-- What is at or below a location below another is below that other. -/
theorem Below.of_isPrefix {top place location : Location} (h : Below top place)
    (hp : place <+: location) : Below top location := by
  refine ⟨h.1.trans hp, ?_⟩
  rintro rfl
  exact h.2 (hp.eq_of_length_le h.1.length_le)

/-- Longer names do not spell the way to fewer, when neither of the directories that they start from is inside the
other. -/
theorem not_isPrefix_of_apart {a b more names : Location} (ha : ¬Below a b) (hb : ¬Below b a)
    (hlength : names.length < more.length) : ¬a ++ more <+: b ++ names := by
  intro hin
  have hsame : a = b := by
    rcases List.prefix_or_prefix_of_prefix ((List.prefix_append a more).trans hin) (List.prefix_append b names) with
      hab | hba
    · by_contra hne
      exact ha ⟨hab, Ne.symm hne⟩
    · by_contra hne
      exact hb ⟨hba, hne⟩
  have hle := hin.length_le
  rw [hsame, List.length_append, List.length_append] at hle
  omega

/-- The working directory stays when a directory is cleared that it is not below. -/
theorem workingDirectory_clear_of_not_below {top : Location} (h : ¬Below top fs.workingDirectory) :
    (fs.clear top).workingDirectory = fs.workingDirectory := by
  unfold clear
  by_cases hin : top <+: fs.workingDirectory
  · have he : fs.workingDirectory = top := Classical.not_not.1 fun hne => h ⟨hin, hne⟩
    rw [if_pos (within_iff_isPrefix.2 hin), he]
    simp [detach]
  · rw [if_neg (by rwa [within_iff_isPrefix])]

/-- Whether nothing in a zone was touched, but that the log file may have been added to. -/
structure Untouched (zone : Location → Prop) (fs t : FileSystem) : Prop where
  /-- Everything in the zone but the log file is as it was. -/
  same : ∀ {location}, zone location → fs.held ≠ some location →
    t.get? location = fs.get? location
  /-- The log file is still a file, if it is in the zone. -/
  shape : ∀ {location}, zone location → t.shapeAt location = fs.shapeAt location
  /-- No other file became the log file. -/
  held : ∀ {location}, t.held = some location → fs.held = some location

/-- Where every entry is as it was, nothing was touched. -/
theorem untouched_of_get? (h : ∀ {location}, zone location → t.get? location = fs.get? location)
    (hheld : ∀ {location}, t.held = some location → fs.held = some location) :
    Untouched zone fs t := by
  refine ⟨fun hl _ => h hl, fun hl => ?_, hheld⟩
  unfold shapeAt
  rw [h hl]

/-- Nothing was touched where nothing was done. -/
theorem Untouched.refl (zone : Location → Prop) (fs : FileSystem) : Untouched zone fs fs :=
  untouched_of_get? (fun _ => rfl) id

/-- What was not touched by one step nor by the next was not touched. -/
theorem Untouched.trans (h : Untouched zone fs t) (ht : Untouched zone t u) : Untouched zone fs u := by
  refine ⟨fun {location} hl hheld => ?_, fun hl => (ht.shape hl).trans (h.shape hl), fun hl => h.held (ht.held hl)⟩
  rw [ht.same hl fun he => hheld (h.held he), h.same hl hheld]

/-- In a smaller zone nothing was touched either. -/
theorem Untouched.mono (h : Untouched zone fs t) (hz : ∀ l, zone' l → zone l) :
    Untouched zone' fs t :=
  ⟨fun hl => h.same (hz _ hl), fun hl => h.shape (hz _ hl), h.held⟩

/-- What stands in the zone stood there, and nothing else does. -/
theorem Untouched.get?_eq_none_iff (h : Untouched zone fs t) {location : Location} (hl : zone location) :
    t.get? location = none ↔ fs.get? location = none := by
  rw [← shapeAt_eq_none, h.shape hl, shapeAt_eq_none]

/-- Between trees that differ in nothing but the log file, nothing was touched. -/
theorem Same.untouched (h : Same fs t) : Untouched zone fs t :=
  ⟨fun _ hheld => h.kept hheld, fun _ => h.shape _ id, fun hl => by rwa [h.held] at hl⟩

/-- When the log file was added to, nothing was touched. -/
theorem Sound.untouched_writeHeld (h : fs.Sound) (line : String) :
    Untouched zone fs (fs.writeHeld line) :=
  (h.same_of_writeHeld line).untouched

/-- What is removed is not in a zone beside it, which was not touched. -/
theorem Removed.untouched {top : Location} (h : Removed top fs t) :
    Untouched (¬top <+: ·) fs t := by
  refine untouched_of_get? h.kept fun hl => ?_
  rw [h.held] at hl
  exact (Option.filter_eq_some_iff.1 hl).1

/-- What came to stand where nothing stood, and was removed again, leaves everything untouched. -/
theorem Untouched.removed {top : Location} (h : Untouched (fun l => zone l ∧ ¬top <+: l) fs t)
    (hs : fs.Sound) (hn : fs.get? top = none) (ht : Removed top t u) : Untouched zone fs u := by
  have hin : ∀ {location}, top <+: location → u.get? location = fs.get? location := by
    intro location hl
    by_cases hname : isNameless location
    · rw [get?_of_isNameless hname, get?_of_isNameless hname]
    · rw [ht.gone hname hl, hs.none_of_isPrefix hn hl hname]
  refine ⟨fun {location} hl hheld => ?_, fun {location} hl => ?_, fun hl => h.held (ht.untouched.held hl)⟩
  · by_cases hp : top <+: location
    · exact hin hp
    · rw [ht.kept hp, h.same ⟨hl, hp⟩ hheld]
  · by_cases hp : top <+: location
    · unfold shapeAt
      rw [hin hp]
    · rw [ht.untouched.shape hp, h.shape ⟨hl, hp⟩]

/-- The log file is not at or below a place where nothing stood before. -/
theorem Untouched.not_isPrefix_held (h : Untouched zone fs t) (hs : fs.Sound) {top : Location}
    (hn : fs.get? top = none) {location : Location} (hl : t.held = some location) :
    ¬top <+: location :=
  hs.not_isPrefix_held_of_none hn (h.held hl)

end ProviderBindings.FileSystem
