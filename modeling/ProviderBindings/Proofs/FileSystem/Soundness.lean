import Mathlib.Data.List.Induction
import Mathlib.Data.List.Infix
import Mathlib.Tactic.ByContra
import ProviderBindings.Proofs.Paths

/-!
# Sound file trees

A file tree is sound when its entries form a tree: every entry has a proper location and stands in a
directory, the working directory is one all the way, and the file that is held open is there. Every
change to a tree keeps it sound, and in a sound tree what stands at a location tells what can stand
above and below it: directories above an entry, nothing below a place where nothing stands.
-/

namespace ProviderBindings.FileSystem

/-- Whether a location is one that an entry can have: its names are names, and none is a double dot. -/
def Proper (location : Location) : Prop :=
  ∀ name ∈ location, Path.IsName name ∧ name ≠ ".."

instance (location : Location) : Decidable (Proper location) := by
  unfold Proper; infer_instance

/-- The path from the root to a proper location is written. -/
theorem Proper.written {location : Location} (h : Proper location) : (Path.fromRoot location).Written :=
  fun name hname => (h name hname).1

/-- Whether no name of a location is too long for one. -/
def Short (location : Location) : Prop :=
  ∀ name ∈ location, name.utf8ByteSize ≤ maxNameSize

instance (location : Location) : Decidable (Short location) := by
  unfold Short; infer_instance

/-- A tree whose entries stand in directories. -/
structure Sound (fs : FileSystem) : Prop where
  /-- Entries have proper locations. -/
  proper : ∀ {location}, ¬isNameless location → (fs.get? location).isSome → Proper location
  /-- No name of an entry is too long. -/
  short : ∀ {location}, ¬isNameless location → (fs.get? location).isSome → Short location
  /-- Entries stand in directories. -/
  parent : ∀ {location}, ¬isNameless location → (fs.get? location).isSome →
    fs.get? location.dropLast = some .directory
  /-- The working directory is a directory, and so is all that is above it. -/
  working : ∀ {location}, location <+: fs.workingDirectory → fs.get? location = some .directory
  /-- What is held open is a file. -/
  held : ∀ {location}, fs.held = some location → ∃ c x, fs.get? location = some (.file c x)

variable {fs : FileSystem}

/-- A tree is sound when every listed entry has a proper and short location in a directory, directories lead
to the working directory, and a file is held open if anything is. -/
theorem sound_of_entries
    (he : ∀ entry ∈ fs.entries, Proper entry.1 ∧ Short entry.1 ∧
      fs.get? entry.1.dropLast = some .directory)
    (hw : ∀ location ∈ fs.workingDirectory.inits, fs.get? location = some .directory)
    (hh : ∀ location, fs.held = some location → ∃ c x, fs.get? location = some (.file c x)) :
    fs.Sound := by
  have hlisted : ∀ {location}, ¬isNameless location → (fs.get? location).isSome →
      ∃ entry ∈ fs.entries, entry.1 = location := by
    intro location hname hsome
    rw [get?_of_not_isNameless hname, Assoc.isSome_get?] at hsome
    exact List.mem_map.1 hsome
  constructor
  · intro location hname hsome
    obtain ⟨entry, hentry, rfl⟩ := hlisted hname hsome
    exact (he entry hentry).1
  · intro location hname hsome
    obtain ⟨entry, hentry, rfl⟩ := hlisted hname hsome
    exact (he entry hentry).2.1
  · intro location hname hsome
    obtain ⟨entry, hentry, rfl⟩ := hlisted hname hsome
    exact (he entry hentry).2.2
  · exact fun hpre => hw _ ((List.mem_inits _ _).2 hpre)
  · exact fun hheld => hh _ hheld

/-! ## Locations -/

/-- A location lies within another when that is where its names start. -/
theorem within_iff_isPrefix {top location : Location} : within top location ↔ top <+: location := by
  rw [within, List.isPrefixOf_iff_prefix]

/-- What lies strictly above a location lies above its last name. -/
theorem isPrefix_dropLast {top location : Location} (h : top <+: location) (hne : top ≠ location) :
    top <+: location.dropLast := by
  obtain ⟨rest, rfl⟩ := h
  have hrest : rest ≠ [] := by
    rintro rfl
    exact hne (List.append_nil top).symm
  rw [List.dropLast_append_of_ne_nil hrest]
  exact List.prefix_append _ _

/-- A location does not lie above its last name. -/
theorem not_isPrefix_dropLast {location : Location} (hne : location ≠ []) :
    ¬location <+: location.dropLast := by
  intro h
  have hlen := h.length_le
  have hpos := List.length_pos_iff.2 hne
  rw [List.length_dropLast] at hlen
  omega

/-- What leads on from a location does not lead to it. -/
theorem not_append_isPrefix {top rest : Location} (h : rest ≠ []) : ¬top ++ rest <+: top := by
  intro hp
  have hlength := hp.length_le
  rw [List.length_append] at hlength
  exact h (List.length_eq_zero_iff.1 (by omega))

/-- Locations of which neither lies above the other have nothing in common below them. -/
theorem not_prefix_append {a b rest : Location} (hab : ¬a <+: b) (hba : ¬b <+: a) :
    ¬a <+: b ++ rest := by
  intro h
  rcases List.prefix_or_prefix_of_prefix h (List.prefix_append b rest) with h' | h'
  · exact hab h'
  · exact hba h'

/-- A location that does not continue another is not within it. -/
theorem within_eq_false {top location : Location} (h : ¬top <+: location) :
    within top location = false := by
  rw [← Bool.not_eq_true, within_iff_isPrefix]
  exact h

/-- Only the root has no name among proper locations. -/
theorem Proper.isNameless_iff {location : Location} (h : Proper location) :
    isNameless location ↔ location = [] := by
  unfold isNameless
  rw [beq_iff_eq]
  constructor
  · intro hlast
    by_contra hne
    rw [List.getLastD_eq_getLast?, List.getLast?_eq_some_getLast hne] at hlast
    exact (h _ (List.getLast_mem hne)).1.1 hlast
  · rintro rfl
    rfl

/-- A proper location with names has one at its end. -/
theorem Proper.not_isNameless {location : Location} (h : Proper location) (hne : location ≠ []) :
    ¬isNameless location := by
  rw [h.isNameless_iff]
  exact hne

/-- A proper location is not gone. -/
theorem Proper.isGone_eq_false {location : Location} (h : Proper location) :
    isGone location = false := by
  by_cases hnil : location = []
  · simp [isGone, hnil]
  · simp [isGone, h.not_isNameless hnil]

/-- Whether a location has a name is told by its end. -/
theorem isNameless_append {top rest : Location} (h : rest ≠ []) :
    isNameless (top ++ rest) = isNameless rest := by
  unfold isNameless
  rw [List.getLastD_eq_getLast?, List.getLastD_eq_getLast?, List.getLast?_append,
    List.getLast?_eq_some_getLast h]
  rfl

/-- Where names that are gone go on from a location, what is on the way and has a name is on the way to that location. -/
theorem isPrefix_of_not_isNameless {location kept : Location} {count : Nat}
    (h : location <+: kept ++ List.replicate count "") (hname : ¬isNameless location) : location <+: kept := by
  rcases List.prefix_or_prefix_of_prefix h (List.prefix_append kept _) with hin | ⟨more, rfl⟩
  · exact hin
  · have hmore : more <+: List.replicate count "" := (List.prefix_append_right_inj kept).1 h
    rcases List.eq_nil_or_concat more with rfl | ⟨init, name, rfl⟩
    · simp
    · have hempty : name = "" := List.eq_of_mem_replicate (hmore.subset (by simp))
      refine absurd ?_ hname
      simp [isNameless, ← List.append_assoc, hempty]

/-- What a proper location starts with is proper. -/
theorem Proper.of_isPrefix {top location : Location} (h : Proper location) (ht : top <+: location) :
    Proper top :=
  fun name hname => h name (ht.subset hname)

/-- Proper locations put together are proper. -/
theorem Proper.append {top rest : Location} (h : Proper top) (hr : Proper rest) :
    Proper (top ++ rest) := by
  intro name hname
  rcases List.mem_append.1 hname with hname | hname
  · exact h name hname
  · exact hr name hname

/-- What a proper location ends with is proper. -/
theorem Proper.of_append_right {top rest : Location} (h : Proper (top ++ rest)) : Proper rest :=
  fun name hname => h name (List.mem_append_right _ hname)

/-- A location that nothing stands at has a name. -/
theorem not_isNameless_of_get?_none {location : Location} (h : fs.get? location = none) :
    ¬isNameless location := by
  intro hl
  rw [get?_of_isNameless hl] at h
  cases h

/-- A location with anything but a directory has a name. -/
theorem not_isNameless_of_get?_ne {location : Location} (h : fs.get? location ≠ some .directory) :
    ¬isNameless location := by
  intro hl
  exact h (get?_of_isNameless hl)

/-! ## What stands where in a sound tree -/

/-- Above an entry there are directories. -/
theorem Sound.directory_of_isPrefix (h : fs.Sound) {top location : Location}
    (hl : ¬isNameless location) (hs : (fs.get? location).isSome) (ht : top <+: location)
    (hne : top ≠ location) : fs.get? top = some .directory := by
  obtain ⟨rest, rfl⟩ := ht
  -- the names after `top` are taken off one by one from the end
  induction rest using List.reverseRecOn with
  | nil => exact absurd (List.append_nil top).symm hne
  | append_singleton rest last ih =>
    have hproper : Proper (top ++ (rest ++ [last])) := h.proper hl hs
    have hparent := h.parent hl hs
    rw [← List.append_assoc, List.dropLast_concat] at hparent
    by_cases hrest : rest = []
    · simpa [hrest] using hparent
    · have hup : Proper (top ++ rest) := by
        rw [← List.append_assoc] at hproper
        exact hproper.of_isPrefix (List.prefix_append _ _)
      refine ih (hup.not_isNameless (by simp [hrest])) (by simp [hparent]) ?_
      simpa using hrest

/-- Below a place where nothing stands, nothing stands. -/
theorem Sound.none_of_isPrefix (h : fs.Sound) {top location : Location} (hn : fs.get? top = none)
    (ht : top <+: location) (hl : ¬isNameless location) : fs.get? location = none := by
  by_contra hsome
  have hs : (fs.get? location).isSome := Option.isSome_iff_ne_none.2 hsome
  by_cases hne : top = location
  · exact hsome (hne ▸ hn)
  · rw [h.directory_of_isPrefix hl hs ht hne] at hn
    cases hn

/-- The log file is not at or below a place where nothing stands. -/
theorem Sound.not_isPrefix_held_of_none (h : fs.Sound) {top location : Location} (hn : fs.get? top = none)
    (hheld : fs.held = some location) : ¬top <+: location := by
  intro ht
  obtain ⟨c, x, hfile⟩ := h.held hheld
  rw [h.none_of_isPrefix hn ht (not_isNameless_of_get?_ne (by rw [hfile]; simp))] at hfile
  cases hfile

/-! ## Changes keep a tree sound -/

/-- What is at or below a removed location is gone. -/
theorem get?_remove_of_isPrefix {top location : Location} (hl : ¬isNameless location)
    (h : top <+: location) : (fs.remove top).get? location = none := by
  rw [get?_remove, if_pos ⟨hl, within_iff_isPrefix.2 h⟩]

/-- What is not below a removed location is as it was. -/
theorem get?_remove_of_not_isPrefix {top location : Location} (h : ¬top <+: location) :
    (fs.remove top).get? location = fs.get? location := by
  rw [get?_remove, if_neg fun hw => h (within_iff_isPrefix.1 hw.2)]

/-- What is below a cleared location is gone. -/
theorem get?_clear_of_isPrefix {top location : Location} (hl : ¬isNameless location)
    (h : top <+: location) (hne : location ≠ top) : (fs.clear top).get? location = none := by
  rw [get?_clear, if_pos ⟨hl, hne, within_iff_isPrefix.2 h⟩]

/-- What is not below a cleared location is as it was. -/
theorem get?_clear_of_not_below {top location : Location} (h : top <+: location → location = top) :
    (fs.clear top).get? location = fs.get? location := by
  rw [get?_clear, if_neg fun hw => hw.2.1 (h (within_iff_isPrefix.1 hw.2.2))]

/-- An entry may be put where a directory is above it, unless it is to take the place of one. -/
theorem Sound.put (h : fs.Sound) {location : Location} {entry : Entry} (hl : Proper location)
    (hshort : Short location) (hne : location ≠ []) (hp : fs.get? location.dropLast = some .directory)
    (hd : fs.get? location = some .directory → entry = .directory)
    (hh : fs.held = some location → ∃ c x, entry = .file c x) : (fs.put location entry).Sound := by
  have hname : ¬isNameless location := hl.not_isNameless hne
  have hlaw : ∀ m, (fs.put location entry).get? m = if location = m then some entry else fs.get? m :=
    fun m => get?_put entry m hname
  -- directories are what the laws for parents and the working directory ask for
  have hkeeps : ∀ {m}, fs.get? m = some .directory →
      (fs.put location entry).get? m = some .directory := by
    intro m hm
    rw [hlaw]
    split
    · next he => rw [hd (he ▸ hm)]
    · exact hm
  constructor
  · intro m hm hs
    rw [hlaw] at hs
    split at hs
    · next he => exact he ▸ hl
    · exact h.proper hm hs
  · intro m hm hs
    rw [hlaw] at hs
    split at hs
    · next he => exact he ▸ hshort
    · exact h.short hm hs
  · intro m hm hs
    rw [hlaw] at hs
    split at hs
    · next he => exact hkeeps (he ▸ hp)
    · exact hkeeps (h.parent hm hs)
  · intro m hm
    exact hkeeps (h.working hm)
  · intro m hm
    rw [hlaw]
    split
    · next he =>
      obtain ⟨c, x, rfl⟩ := hh (he ▸ hm)
      exact ⟨c, x, rfl⟩
    · exact h.held hm

/-- What leads to a removed directory are directories, as long as what is kept of it are. -/
theorem directory_of_prefix_detach {t : FileSystem} {kept location m : Location}
    (hkept : ∀ l, l <+: kept → t.get? l = some .directory) (hm : m <+: detach kept location) :
    t.get? m = some .directory := by
  by_cases hname : isNameless m
  · exact get?_of_isNameless hname
  · exact hkept m (isPrefix_of_not_isNameless hm hname)

/-- A tree is sound when it shows what a sound tree does at all that leads to something it still has, its working
directory stands, and what it holds open was held open before. -/
theorem Sound.of_kept {t : FileSystem} (h : fs.Sound)
    (hkept : ∀ {m l}, ¬isNameless m → (t.get? m).isSome → l <+: m → t.get? l = fs.get? l)
    (hworking : ∀ {m}, m <+: t.workingDirectory → t.get? m = some .directory)
    (hheld : ∀ {m}, t.held = some m → fs.held = some m ∧ t.get? m = fs.get? m) : t.Sound := by
  constructor
  · intro m hm hs
    rw [hkept hm hs (List.prefix_refl m)] at hs
    exact h.proper hm hs
  · intro m hm hs
    rw [hkept hm hs (List.prefix_refl m)] at hs
    exact h.short hm hs
  · intro m hm hs
    rw [hkept hm hs (List.dropLast_prefix m)]
    rw [hkept hm hs (List.prefix_refl m)] at hs
    exact h.parent hm hs
  · exact hworking
  · intro m hm
    obtain ⟨hheld, hsame⟩ := hheld hm
    rw [hsame]
    exact h.held hheld

/-- A removal keeps a tree sound. -/
theorem Sound.remove (h : fs.Sound) (top : Location) : (fs.remove top).Sound := by
  -- what is still there is not below the removed place, and neither is what is above it
  have hup : ∀ {m l}, l <+: m → ¬top <+: m → (fs.remove top).get? l = fs.get? l :=
    fun hl hm => get?_remove_of_not_isPrefix fun ht => hm (ht.trans hl)
  refine h.of_kept (fun {m l} hm hs hl => hup hl fun ht => ?_) (fun {m} hm => ?_) fun {m} hm => ?_
  · rw [get?_remove_of_isPrefix hm ht] at hs
    cases hs
  · by_cases ht : top <+: fs.workingDirectory
    · have hcwd : (fs.remove top).workingDirectory = detach top.dropLast fs.workingDirectory := by
        simp [FileSystem.remove, within_iff_isPrefix.2 ht]
      rw [hcwd] at hm
      refine directory_of_prefix_detach (fun l hl => ?_) hm
      by_cases hnil : l = []
      · subst hnil; rfl
      · have hshort : ¬top <+: l := by
          intro hle
          have h1 := hle.length_le
          have h2 := hl.length_le
          have h3 : 0 < l.length := List.length_pos_iff.2 hnil
          rw [List.length_dropLast] at h2
          omega
        rw [get?_remove_of_not_isPrefix hshort]
        exact h.working ((hl.trans (List.dropLast_prefix top)).trans ht)
    · have hcwd : (fs.remove top).workingDirectory = fs.workingDirectory := by
        simp [FileSystem.remove, within_eq_false ht]
      rw [hcwd] at hm
      rw [hup hm ht]
      exact h.working hm
  · obtain ⟨hheld, hnot⟩ := Option.filter_eq_some_iff.1 hm
    refine ⟨hheld, hup (List.prefix_refl m) fun ht => ?_⟩
    simp [within_iff_isPrefix.2 ht] at hnot

/-- A clearing keeps a tree sound. -/
theorem Sound.clear (h : fs.Sound) (top : Location) : (fs.clear top).Sound := by
  -- of what is below the cleared place nothing is still there, and the place itself is left as it is
  have hup : ∀ {m l}, l <+: m → (top <+: m → m = top) → (fs.clear top).get? l = fs.get? l := by
    intro m l hl hm
    refine get?_clear_of_not_below fun ht => ?_
    have hmt : m = top := hm (ht.trans hl)
    subst hmt
    exact hl.eq_of_length_le ht.length_le
  refine h.of_kept (fun {m l} hm hs hl => hup hl fun ht => ?_) (fun {m} hm => ?_) fun {m} hm => ?_
  · by_contra hne
    rw [get?_clear_of_isPrefix hm ht hne] at hs
    cases hs
  · by_cases ht : top <+: fs.workingDirectory
    · have hcwd : (fs.clear top).workingDirectory = detach top fs.workingDirectory := by
        simp [FileSystem.clear, within_iff_isPrefix.2 ht]
      rw [hcwd] at hm
      refine directory_of_prefix_detach (fun l hl => ?_) hm
      rw [hup hl fun _ => rfl]
      exact h.working (hl.trans ht)
    · have hcwd : (fs.clear top).workingDirectory = fs.workingDirectory := by
        simp [FileSystem.clear, within_eq_false ht]
      rw [hcwd] at hm
      rw [hup hm fun hle => absurd hle ht]
      exact h.working hm
  · obtain ⟨hheld, hnot⟩ := Option.filter_eq_some_iff.1 hm
    refine ⟨hheld, hup (List.prefix_refl m) fun ht => ?_⟩
    simpa [within_iff_isPrefix.2 ht] using hnot

/-- What is at or below the source of a move comes to the target. -/
theorem moved_append (source target rest : Location) : moved source target (source ++ rest) = target ++ rest := by
  rw [moved, if_pos (within_iff_isPrefix.2 (List.prefix_append _ _)), List.drop_left]

/-- What is not at or below the source of a move stays. -/
theorem moved_of_not_isPrefix {source target location : Location} (h : ¬source <+: location) :
    moved source target location = location := by
  rw [moved, within_eq_false h]
  rfl

/-- What goes on from a location with a name has one, if that has one that goes on from another. -/
theorem not_isNameless_append {source target rest : Location} (hs : ¬isNameless source)
    (hl : ¬isNameless (target ++ rest)) : ¬isNameless (source ++ rest) := by
  by_cases hrest : rest = []
  · simpa [hrest] using hs
  · rw [isNameless_append hrest] at hl ⊢
    exact hl

/-- What was moved away from a place stands at the place it was moved to, and everything else is where
it was. -/
theorem get?_transplant {source target location : Location} (hl : ¬isNameless location)
    (hs : ¬isNameless source) (hfree : ∀ l, target <+: l → ¬isNameless l → fs.get? l = none) :
    (fs.transplant source target).get? location =
      if target <+: location then fs.get? (source ++ location.drop target.length)
      else if source <+: location then none else fs.get? location := by
  rw [get?_of_not_isNameless hl]
  show Assoc.get? location (fs.entries.map fun entry => (moved source target entry.1, entry.2)) = _
  by_cases ht : target <+: location
  · obtain ⟨rest, rfl⟩ := ht
    rw [if_pos (List.prefix_append _ _), List.drop_left, get?_of_not_isNameless (not_isNameless_append hs hl)]
    refine Assoc.get?_map_keys fun k hk => ?_
    by_cases hsk : source <+: k
    · obtain ⟨tail, rfl⟩ := hsk
      rw [moved_append]
      simp
    · rw [moved_of_not_isPrefix hsk]
      -- nothing was listed at the target, so no entry that stays can be the one looked for
      constructor
      · rintro rfl
        have hnone := hfree _ (List.prefix_append _ _) hl
        rw [get?_of_not_isNameless hl] at hnone
        have hsome := (Assoc.isSome_get? _ _).2 hk
        rw [hnone] at hsome
        cases hsome
      · rintro rfl
        exact absurd (List.prefix_append _ _) hsk
  · rw [if_neg ht]
    by_cases hsl : source <+: location
    · rw [if_pos hsl, ← Option.not_isSome_iff_eq_none, Assoc.isSome_get?, List.map_map]
      intro hmem
      obtain ⟨⟨k, e⟩, -, hk⟩ := List.mem_map.1 hmem
      have hk : moved source target k = location := hk
      by_cases hsk : source <+: k
      · obtain ⟨tail, rfl⟩ := hsk
        rw [moved_append] at hk
        exact ht (hk ▸ List.prefix_append _ _)
      · rw [moved_of_not_isPrefix hsk] at hk
        exact hsk (hk ▸ hsl)
    · rw [if_neg hsl, get?_of_not_isNameless hl]
      refine Assoc.get?_map_keys fun k _ => ?_
      by_cases hsk : source <+: k
      · obtain ⟨tail, rfl⟩ := hsk
        rw [moved_append]
        constructor
        · rintro rfl
          exact absurd (List.prefix_append _ _) ht
        · rintro rfl
          exact absurd (List.prefix_append _ _) hsl
      · rw [moved_of_not_isPrefix hsk]

section Transplant

variable {source target : Location} (hs : ¬isNameless source)
  (hfree : ∀ l, target <+: l → ¬isNameless l → fs.get? l = none)

include hs hfree

/-- At and below the target of a move stands what stood at and below the source. -/
theorem get?_transplant_append {rest : Location} (hl : ¬isNameless (target ++ rest)) :
    (fs.transplant source target).get? (target ++ rest) = fs.get? (source ++ rest) := by
  rw [get?_transplant hl hs hfree, if_pos (List.prefix_append _ _), List.drop_left]

/-- What is not at or below the target of a move nor at or below the source is as it was. -/
theorem get?_transplant_of_not_isPrefix {location : Location} (ht : ¬target <+: location)
    (hl : ¬source <+: location) : (fs.transplant source target).get? location = fs.get? location := by
  by_cases hname : isNameless location
  · rw [get?_of_isNameless hname, get?_of_isNameless hname]
  · rw [get?_transplant hname hs hfree, if_neg ht, if_neg hl]

/-- What stands after a move stood at or below the source and came to the target, or it is as it was. -/
theorem get?_transplant_cases {location : Location} (hl : ¬isNameless location)
    (hsome : ((fs.transplant source target).get? location).isSome) :
    (∃ rest, location = target ++ rest ∧ ¬isNameless (source ++ rest) ∧ (fs.get? (source ++ rest)).isSome) ∨
      ¬source <+: location ∧ (fs.get? location).isSome := by
  rw [get?_transplant hl hs hfree] at hsome
  split at hsome
  · next ht =>
    obtain ⟨rest, rfl⟩ := ht
    rw [List.drop_left] at hsome
    exact .inl ⟨rest, rfl, not_isNameless_append hs hl, hsome⟩
  · split at hsome
    · cases hsome
    · next hsl => exact .inr ⟨hsl, hsome⟩

/-- A directory that is not at or below the source of a move stays. -/
theorem directory_transplant {location : Location} (hd : fs.get? location = some .directory)
    (hl : ¬source <+: location) : (fs.transplant source target).get? location = some .directory := by
  by_cases hname : isNameless location
  · exact get?_of_isNameless hname
  · rw [get?_transplant_of_not_isPrefix hs hfree (fun ht => ?_) hl, hd]
    rw [hfree location ht hname] at hd
    cases hd

/-- A directory at or below the source of a move comes to the target. -/
theorem directory_transplant_append {rest : Location} (hd : fs.get? (source ++ rest) = some .directory) :
    (fs.transplant source target).get? (target ++ rest) = some .directory := by
  by_cases hname : isNameless (target ++ rest)
  · exact get?_of_isNameless hname
  · rw [get?_transplant_append hs hfree hname, hd]

/-- Directories lead to the working directory after a move, if they did before, and lead to the target. -/
theorem directory_of_prefix_moved (hin : ¬source <+: target)
    (habove : ∀ {l}, l <+: target → l ≠ target → fs.get? l = some .directory)
    (hworking : ∀ {l}, l <+: fs.workingDirectory → fs.get? l = some .directory) {location : Location}
    (hl : location <+: moved source target fs.workingDirectory) :
    (fs.transplant source target).get? location = some .directory := by
  by_cases hsw : source <+: fs.workingDirectory
  · obtain ⟨rest, hrest⟩ := hsw
    rw [← hrest, moved_append] at hl
    by_cases ht : target <+: location
    · obtain ⟨more, rfl⟩ := ht
      refine directory_transplant_append hs hfree (hworking ?_)
      rw [← hrest]
      exact (List.prefix_append_right_inj source).2 ((List.prefix_append_right_inj target).1 hl)
    · have hup : location <+: target :=
        (List.prefix_or_prefix_of_prefix hl (List.prefix_append target rest)).resolve_right ht
      refine directory_transplant hs hfree (habove hup ?_) fun hsl => hin (hsl.trans hup)
      rintro rfl
      exact ht (List.prefix_refl _)
  · rw [moved_of_not_isPrefix hsw] at hl
    exact directory_transplant hs hfree (hworking hl) fun hsl => hsw (hsl.trans hl)

end Transplant

/-- A move to a free place keeps a tree sound, unless it goes into what is moved. -/
theorem Sound.transplant (h : fs.Sound) {source target : Location} (hs : ¬isNameless source)
    (ht : Proper target) (hne : target ≠ []) (hfree : fs.get? target = none)
    (hshort : Short target) (hp : fs.get? target.dropLast = some .directory) (hst : ¬source <+: target) :
    (fs.transplant source target).Sound := by
  have hnone : ∀ l, target <+: l → ¬isNameless l → fs.get? l = none :=
    fun l hl hname => h.none_of_isPrefix hfree hl hname
  have habove : ∀ {l}, l <+: target → l ≠ target → fs.get? l = some .directory := by
    intro l hl hlt
    have hup : l <+: target.dropLast := isPrefix_dropLast hl hlt
    by_cases hlp : l = target.dropLast
    · rw [hlp, hp]
    · have hproper : Proper target.dropLast := ht.of_isPrefix (List.dropLast_prefix target)
      refine h.directory_of_isPrefix (hproper.not_isNameless ?_) (by simp [hp]) hup hlp
      rintro hnil
      rw [hnil] at hup hlp
      exact hlp (List.prefix_nil.1 hup)
  -- what stands after the move came with it, below the target, or was there before
  constructor
  · intro m hm hms
    rcases get?_transplant_cases hs hnone hm hms with ⟨rest, rfl, hname, hsome⟩ | ⟨-, hsome⟩
    · exact ht.append (h.proper hname hsome).of_append_right
    · exact h.proper hm hsome
  · intro m hm hms
    rcases get?_transplant_cases hs hnone hm hms with ⟨rest, rfl, hname, hsome⟩ | ⟨-, hsome⟩
    · intro name hmem
      rcases List.mem_append.1 hmem with hmem | hmem
      · exact hshort name hmem
      · exact h.short hname hsome name (List.mem_append_right _ hmem)
    · exact h.short hm hsome
  · intro m hm hms
    rcases get?_transplant_cases hs hnone hm hms with ⟨rest, rfl, hname, hsome⟩ | ⟨hsl, hsome⟩
    · by_cases hrest : rest = []
      · -- the target itself stands where it was to be moved to
        subst hrest
        rw [List.append_nil]
        exact directory_transplant hs hnone hp fun hsl => hst (hsl.trans (List.dropLast_prefix target))
      · rw [List.dropLast_append_of_ne_nil hrest]
        refine directory_transplant_append hs hnone ?_
        rw [← List.dropLast_append_of_ne_nil hrest]
        exact h.parent hname hsome
    · exact directory_transplant hs hnone (h.parent hm hsome) fun hpre => hsl (hpre.trans (List.dropLast_prefix m))
  · exact fun hm => directory_of_prefix_moved hs hnone hst habove h.working hm
  · intro m hm
    obtain ⟨place, hplace, rfl⟩ := Option.map_eq_some_iff.1 hm
    obtain ⟨c, x, hfile⟩ := h.held hplace
    have hname : ¬isNameless place := not_isNameless_of_get?_ne (by rw [hfile]; simp)
    have hproper : Proper place := h.proper hname (by simp [hfile])
    refine ⟨c, x, ?_⟩
    by_cases hsp : source <+: place
    · obtain ⟨rest, rfl⟩ := hsp
      have hto : ¬isNameless (target ++ rest) :=
        (ht.append hproper.of_append_right).not_isNameless (by simp [hne])
      rw [moved_append, get?_transplant_append hs hnone hto, hfile]
    · have htp : ¬target <+: place := fun htp => by rw [hnone _ htp hname] at hfile; cases hfile
      rw [moved_of_not_isPrefix hsp, get?_transplant_of_not_isPrefix hs hnone htp hsp, hfile]

/-- A file that is added to is a file still, and nothing else changes. -/
theorem get?_writeHeld (h : fs.Sound) (s : String) (location : Location) :
    (fs.writeHeld s).get? location =
      match fs.get? location with
      | some (.file c x) => some (.file (if fs.held = some location then c.append s else c) x)
      | e => e := by
  unfold writeHeld
  split
  · next hheld => rw [hheld]; cases fs.get? location with
    | none => rfl
    | some e => cases e <;> simp
  · next place hheld =>
    obtain ⟨c, x, hfile⟩ := h.held hheld
    have hname : ¬isNameless place := not_isNameless_of_get?_ne (by rw [hfile]; simp)
    rw [hfile]
    dsimp only
    rw [get?_put _ _ hname]
    by_cases he : place = location
    · subst he
      simp [hfile, hheld]
    · rw [if_neg he]
      have hother : fs.held ≠ some location := by
        rw [hheld]
        simpa using he
      cases fs.get? location with
      | none => rfl
      | some e => cases e <;> simp [hother]

/-- Adding to the file that is held open keeps a tree sound. -/
theorem Sound.writeHeld (h : fs.Sound) (s : String) : (fs.writeHeld s).Sound := by
  unfold FileSystem.writeHeld
  split
  · exact h
  · next place hheld =>
    obtain ⟨c, x, hfile⟩ := h.held hheld
    have hname : ¬isNameless place := not_isNameless_of_get?_ne (by rw [hfile]; simp)
    have hsome : (fs.get? place).isSome := by simp [hfile]
    rw [hfile]
    refine h.put (h.proper hname hsome) (h.short hname hsome) ?_ (h.parent hname hsome) ?_ ?_
    · rintro rfl
      exact hname rfl
    · rw [hfile]
      intro hd
      cases hd
    · exact fun _ => ⟨_, _, rfl⟩

end ProviderBindings.FileSystem
