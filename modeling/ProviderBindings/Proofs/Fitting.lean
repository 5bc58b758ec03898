import ProviderBindings.Proofs.FileSystem.Grounding
import ProviderBindings.Proofs.Viewing

/-!
# What can be saved

Files can be saved below a directory when their paths fit there and what stands there takes them one after
another: a place is taken when no directory stands at it and nothing but directories on the way to it.
A view that has taken one file takes exactly the others that it took before and that are neither above
that file nor below it (`View.takes_write_iff`). So an empty directory takes files when no place of one lies
above that of another (`Emitter.saveFiles_ok_iff`), and then what stands below it are these files
(`View.writeAll_eq_file_iff`).
-/

namespace ProviderBindings

namespace Path

/-- The first names of a path that can be said are a path that can be said. -/
theorem Sayable.of_isPrefix {names top : Location} (h : (fromRoot names).Sayable) (ht : top <+: names) :
    (fromRoot top).Sayable :=
  ⟨fun name hname => h.written name (ht.subset hname), fun name hname => h.faultless name (ht.subset hname)⟩

/-- The first names of a path have no longer text than the path. -/
theorem text_le_of_isPrefix {names top : Location} (ht : top <+: names) :
    (fromRoot top).text.utf8ByteSize ≤ (fromRoot names).text.utf8ByteSize := by
  obtain ⟨rest, rfl⟩ := ht
  induction rest using List.reverseRecOn with
  | nil => rw [List.append_nil]
  | append_singleton rest name ih =>
    refine ih.trans ?_
    rw [← List.append_assoc]
    by_cases hnil : top ++ rest = []
    · rw [hnil]
      show ("/" ++ String.intercalate "/" []).utf8ByteSize ≤ ("/" ++ String.intercalate "/" [name]).utf8ByteSize
      rw [String.utf8ByteSize_append, String.utf8ByteSize_append, String.intercalate_nil]
      simp
    · exact text_le_text_concat hnil name

end Path

namespace FileSystem

variable {fs t : FileSystem}

/-! ## Directories that can be made -/

/-- A walk along proper names on which only directories stand ends where one of them is missing before the
last. -/
theorem walk_of_missing {ending : Ending} {here : Location} {names : List String} {name : String}
    (hd : fs.get? here = some .directory) (hgone : isGone here = false)
    (hp : Proper (names ++ [name])) (hshort : Short (names ++ [name]))
    (hway : ∀ top, top <+: names →
      fs.get? (here ++ top) = none ∨ fs.get? (here ++ top) = some .directory)
    (hmissing : fs.get? (here ++ names) = none) :
    fs.walk ending here (names ++ [name]) = .failed .notFound := by
  induction names generalizing here with
  | nil =>
    rw [List.append_nil, hd] at hmissing
    cases hmissing
  | cons first rest ih =>
    have hpass : Passes ending here first (rest ++ [name]) := passes_of_proper hp (hshort first (by simp)) hgone
    rw [List.cons_append, walk_of_passes hpass]
    rcases hway [first] (by simp) with hnone | hdir
    · rw [hnone]
      simp
    · rw [hdir]
      refine ih hdir (isGone_concat hp) (fun n hn => hp n (List.mem_cons_of_mem _ hn))
        (fun n hn => hshort n (List.mem_cons_of_mem _ hn)) (fun top ht => ?_) ?_
      · rw [List.append_assoc]
        exact hway (first :: top) (List.cons_prefix_cons.2 ⟨rfl, ht⟩)
      · rwa [List.append_assoc]

/-- A directory can be made in another along a path from the root that is not too long. -/
theorem run_makeDirectory_fromRoot (hs : fs.Sound) {names : Location} {name : String}
    (hp : Proper (names ++ [name])) (hshort : Short (names ++ [name]))
    (hsay : (Path.fromRoot (names ++ [name])).Sayable)
    (hsize : (Path.fromRoot (names ++ [name])).text.utf8ByteSize ≤ maxPathSize)
    (hparent : fs.get? names = some .directory) (hfree : fs.get? (names ++ [name]) = none) :
    (makeDirectory (.fromRoot (names ++ [name]))).run fs =
      (.ok (), fs.put (names ++ [name]) .directory) := by
  have hlocate : fs.locate .keep (.fromRoot (names ++ [name])) = .ok (names ++ [name]) := by
    refine locate_fromRoot hsize hp hshort (fun top ht hne => ?_) (fun _ _ => rfl)
    have hin : top <+: names := by
      have hdrop := isPrefix_dropLast ht hne
      rwa [List.dropLast_concat] at hdrop
    exact hs.rooted hparent (hp.of_isPrefix (List.prefix_append _ _)) hin
  refine run_makeDirectoryAt_ok_iff.2 ⟨hsay.text, _, ?_, hfree, rfl⟩
  rw [locateText_text fs _ hsay.written, hlocate]

/-- A directory need not be made where one stands. -/
theorem run_makeDirectories_there (hs : fs.Sound) {names : Location} (hp : Proper names)
    (hshort : Short names) (hsay : (Path.fromRoot names).Sayable)
    (hsize : (Path.fromRoot names).text.utf8ByteSize ≤ maxPathSize)
    (hd : fs.get? names = some .directory) :
    (makeDirectories (.fromRoot names)).run fs = (.ok (), fs) := by
  have hlocate : fs.locate .follow (.fromRoot names) = .ok names := by
    refine locate_fromRoot hsize hp hshort (fun top ht _ => hs.rooted hd hp ht) fun target htarget => ?_
    rw [hd] at htarget
    cases htarget
  exact run_makeDirectories_of_directory hsay.written
    (isDirectory_eq_true_iff.2 ⟨hsay.text, names, hlocate, hd⟩)

/-- A directory whose parent is missing is made once the directories above it are. -/
theorem run_makeDirectories_of_missing {u v : FileSystem} {names : Location} {name : String}
    (hp : Proper (names ++ [name])) (hshort : Short (names ++ [name]))
    (hsay : (Path.fromRoot (names ++ [name])).Sayable)
    (hsize : (Path.fromRoot (names ++ [name])).text.utf8ByteSize ≤ maxPathSize)
    (hway : ∀ top, top <+: names → fs.get? top = none ∨ fs.get? top = some .directory)
    (hmissing : fs.get? names = none) (hup : (makeDirectories (.fromRoot names)).run fs = (.ok (), u))
    (hlast : (makeDirectory (.fromRoot (names ++ [name]))).run u = (.ok (), v)) :
    (makeDirectories (.fromRoot (names ++ [name]))).run fs = (.ok (), v) := by
  have hlocate : fs.locate .keep (.fromRoot (names ++ [name])) = .error .notFound := by
    show fs.locateRoute .keep _ ⟨true, names ++ [name]⟩ = _
    unfold locateRoute
    rw [if_neg (Nat.not_lt.2 hsize), if_pos rfl, locateFrom,
      walk_of_missing get?_root rfl hp hshort hway hmissing]
  have hmade : (makeDirectory (.fromRoot (names ++ [name]))).run fs =
      (.error (.system (.about .notFound (Path.fromRoot (names ++ [name])).text)), fs) := by
    rw [makeDirectory, run_makeDirectoryAt, hsay.text, locateText_text fs _ hsay.written, hlocate]
  have hfirst : (makeDirectoryIfMissing (.fromRoot (names ++ [name]))).run fs =
      (.error (.system (.about .notFound (Path.fromRoot (names ++ [name])).text)), fs) := by
    rw [makeDirectoryIfMissing, run_orElse, hmade]
    rfl
  have hparent : (makeDirectories (Path.fromRoot (names ++ [name])).parent).run fs = (.ok (), u) := by
    show (makeDirectories (.fromRoot (names ++ [name]).dropLast)).run fs = _
    rw [List.dropLast_concat]
    exact hup
  rw [makeDirectories, run_orElse, hfirst]
  dsimp only
  rw [dif_pos ⟨rfl, by simp [Path.fromRoot]⟩, run_bind_of_ok hparent]
  exact run_makeDirectoryIfMissing_ok_iff.2 (.inl hlast)

/-- Along a path from the root that is not too long, directories can be made when only directories stand on
the way. -/
theorem exists_run_makeDirectories (hs : fs.Sound) {names : Location} (hp : Proper names)
    (hshort : Short names) (hsay : (Path.fromRoot names).Sayable)
    (hsize : (Path.fromRoot names).text.utf8ByteSize ≤ maxPathSize)
    (hway : ∀ top, top <+: names → fs.get? top = none ∨ fs.get? top = some .directory) :
    ∃ t, (makeDirectories (.fromRoot names)).run fs = (.ok (), t) := by
  -- on the names from the end, as a missing parent is made first
  induction names using List.reverseRecOn with
  | nil => exact ⟨fs, run_makeDirectories_there hs hp hshort hsay hsize rfl⟩
  | append_singleton names name ih =>
    have hin : names <+: names ++ [name] := List.prefix_append _ _
    rcases hway _ (List.prefix_refl _) with hfree | hd
    · rcases hway names hin with hmissing | hparent
      · have hhead : names ≠ [] := by
          rintro rfl
          cases hmissing
        have hsay' : (Path.fromRoot names).Sayable := hsay.of_isPrefix hin
        obtain ⟨u, hup⟩ := ih (hp.of_isPrefix hin) (fun n hn => hshort n (hin.subset hn)) hsay'
          ((Path.text_le_of_isPrefix hin).trans hsize) fun top ht => hway top (ht.trans hin)
        have hfreeWay : fs.LinkFree [] names := by
          intro top ht _ target htarget
          rw [List.nil_append] at htarget
          rcases hway top (ht.trans hin) with h | h <;> rw [h] at htarget <;> cases htarget
        have hmade := run_makeDirectories_fromRoot_ok hs (hp.of_isPrefix hin) hfreeWay hup
        have hsound : u.Sound := (run_makeDirectories_ok hs hsay'.written hup).1.sound hs
        have hlast : (makeDirectory (.fromRoot (names ++ [name]))).run u =
            (.ok (), u.put (names ++ [name]) .directory) := by
          refine run_makeDirectory_fromRoot hsound hp hshort hsay hsize ?_ ?_
          · rw [hmade, if_pos (List.prefix_refl _)]
          · rw [hmade, if_neg (not_append_isPrefix (by simp)), hfree]
        exact ⟨_, run_makeDirectories_of_missing hp hshort hsay hsize
          (fun top ht => hway top (ht.trans hin)) hmissing hup hlast⟩
      · have hmade := run_makeDirectory_fromRoot hs hp hshort hsay hsize hparent hfree
        refine ⟨fs.put (names ++ [name]) .directory, ?_⟩
        rw [makeDirectories, run_orElse, run_makeDirectoryIfMissing_ok_iff.2 (.inl hmade)]
    · exact ⟨fs, run_makeDirectories_there hs hp hshort hsay hsize hd⟩

end FileSystem

/-! ## Places that are taken -/

namespace View

variable {view : View} {place other : Location}

/-- A place that is not above another is not that place. -/
theorem ne_of_not_isPrefix (h : ¬other <+: place) : other ≠ place := by
  rintro rfl
  exact h (List.prefix_refl _)

/-- Whether a file can be written at a place: no directory stands there, and nothing but directories on the
way there. -/
def Takes (view : View) (place : Location) : Prop :=
  view place ≠ some .directory ∧
    ∀ top, top <+: place → top ≠ place → view top = none ∨ view top = some .directory

/-- Whether files can be written one after another. -/
def TakesAll : View → List (String × String) → Prop
  | _, [] => True
  | view, file :: rest =>
    view.Takes (Text.split '/' file.1) ∧ (view.write (Text.split '/' file.1) file.2).TakesAll rest

/-- With a file written at a place, another is taken when it was before and neither of them is above the
other. -/
theorem takes_write_iff (h : view.Takes place) (text : String) :
    (view.write place text).Takes other ↔
      view.Takes other ∧ (place <+: other ↔ place = other) ∧ (other <+: place ↔ place = other) := by
  constructor
  · rintro ⟨hother, hway⟩
    -- a file stands at the place now, and directories above it
    have habove : place <+: other → place = other := by
      intro hpre
      by_contra hne
      have hstands := hway place hpre hne
      simp [write] at hstands
    have hbelow : other <+: place → place = other := by
      intro hpre
      by_contra hne
      have hne' : other ≠ place := fun e => hne e.symm
      refine hother ?_
      rw [write, if_neg hne', if_pos hpre]
    refine ⟨⟨?_, fun top ht hne => ?_⟩, ⟨habove, fun e => e ▸ List.prefix_refl _⟩,
      ⟨hbelow, fun e => e ▸ List.prefix_refl _⟩⟩
    · by_cases he : place = other
      · exact he ▸ h.1
      · have hne : other ≠ place := fun e => he e.symm
        rwa [write, if_neg hne, if_neg fun hpre => he (hbelow hpre)] at hother
    · by_cases hpre : top <+: place
      · by_cases he : top = place
        · exact absurd (habove (he ▸ ht)) fun e => hne (he.trans e)
        · exact h.2 top hpre he
      · have hstands := hway top ht hne
        rwa [write, if_neg (ne_of_not_isPrefix hpre), if_neg hpre] at hstands
  · rintro ⟨⟨hother, hway⟩, habove, hbelow⟩
    refine ⟨?_, fun top ht hne => ?_⟩
    · unfold write
      split
      · simp
      · next he =>
        rw [if_neg fun hpre => he (hbelow.1 hpre).symm]
        exact hother
    · unfold write
      rw [if_neg fun he => hne (he.trans (habove.1 (he ▸ ht)))]
      split
      · exact .inr rfl
      · exact hway top ht hne

/-- An empty directory takes a file at every proper place below it. -/
theorem takes_empty (hp : FileSystem.Proper place) (hne : place ≠ []) : empty.Takes place := by
  refine ⟨?_, fun top _ _ => ?_⟩
  · rw [empty, if_neg (by simpa using hp.not_isNameless hne)]
    simp
  · unfold empty
    split
    · exact .inr rfl
    · exact .inl rfl

/-- Whether the place of no file lies above that of another. -/
def PrefixFree (files : List (String × String)) : Prop :=
  ∀ a ∈ files, ∀ b ∈ files,
    Text.split '/' a.1 <+: Text.split '/' b.1 → Text.split '/' a.1 = Text.split '/' b.1

/-- Files can be written one after another when each can be and the place of none lies above that of
another. -/
theorem takesAll_iff {files : List (String × String)} :
    view.TakesAll files ↔ (∀ file ∈ files, view.Takes (Text.split '/' file.1)) ∧ PrefixFree files := by
  induction files generalizing view with
  | nil => simp [TakesAll, PrefixFree]
  | cons file rest ih =>
    rw [TakesAll, ih]
    constructor
    -- the others are written into the view with the first file in it
    · rintro ⟨hfile, hrest, hfree⟩
      have hboth := fun other hother => (takes_write_iff hfile file.2).1 (hrest other hother)
      refine ⟨fun other hother => ?_, fun a ha b hb hpre => ?_⟩
      · rcases List.mem_cons.1 hother with rfl | hother
        · exact hfile
        · exact (hboth other hother).1
      · rcases List.mem_cons.1 ha with rfl | ha' <;> rcases List.mem_cons.1 hb with rfl | hb'
        · rfl
        · exact (hboth b hb').2.1.1 hpre
        · exact ((hboth a ha').2.2.1 hpre).symm
        · exact hfree a ha' b hb' hpre
    · rintro ⟨htakes, hfree⟩
      have hfile := htakes file (by simp)
      refine ⟨hfile, fun other hother => (takes_write_iff hfile file.2).2 ?_, fun a ha b hb =>
        hfree a (List.mem_cons_of_mem _ ha) b (List.mem_cons_of_mem _ hb)⟩
      have hin : other ∈ file :: rest := List.mem_cons_of_mem _ hother
      exact ⟨htakes other hin,
        ⟨hfree file (by simp) other hin, fun e => e ▸ List.prefix_refl _⟩,
        ⟨fun hpre => (hfree other hin file (by simp) hpre).symm, fun e => e ▸ List.prefix_refl _⟩⟩

/-- Where different files none of which lies above another are written, they stand, and so do the files from
before that none of them is written at or below. -/
theorem writeAll_eq_file_iff {files : List (String × String)} (hfree : PrefixFree files)
    (hnodup : (files.map (·.1)).Nodup) {c : Content} {x : Bool} :
    view.writeAll files place = some (.file c x) ↔
      (∃ file ∈ files, Text.split '/' file.1 = place ∧ c = .text file.2 ∧
        x = FileSystem.isExecutable (view place)) ∨
      (∀ file ∈ files, ¬place <+: Text.split '/' file.1) ∧ view place = some (.file c x) := by
  -- on the files, each written into the view that has those before; none of the others is above it or below
  induction files generalizing view with
  | nil => simp [writeAll]
  | cons file rest ih =>
    have hrest : PrefixFree rest := fun a ha b hb =>
      hfree a (List.mem_cons_of_mem _ ha) b (List.mem_cons_of_mem _ hb)
    rw [List.map_cons, List.nodup_cons] at hnodup
    have hother : ∀ other ∈ rest, ¬Text.split '/' other.1 <+: Text.split '/' file.1 ∧
        ¬Text.split '/' file.1 <+: Text.split '/' other.1 := by
      intro other hmem
      have hne : Text.split '/' other.1 ≠ Text.split '/' file.1 := by
        intro he
        have hpath : other.1 = file.1 := by
          rw [← Text.intercalate_split other.1, he, Text.intercalate_split]
        exact hnodup.1 (List.mem_map.2 ⟨other, hmem, hpath⟩)
      have hin : other ∈ file :: rest := List.mem_cons_of_mem _ hmem
      exact ⟨fun hpre => hne (hfree other hin file (by simp) hpre),
        fun hpre => hne (hfree file (by simp) other hin hpre).symm⟩
    show (view.write _ _).writeAll rest place = _ ↔ _
    rw [ih hrest hnodup.2]
    constructor
    · rintro (⟨other, hmem, rfl, rfl, rfl⟩ | ⟨hnot, hstands⟩)
      · refine .inl ⟨other, List.mem_cons_of_mem _ hmem, rfl, rfl, ?_⟩
        have hapart := (hother other hmem).1
        rw [write, if_neg (ne_of_not_isPrefix hapart), if_neg hapart]
      · unfold write at hstands
        split at hstands
        · next he =>
          cases hstands
          exact .inl ⟨file, by simp, he.symm, rfl, by rw [he]⟩
        · split at hstands
          · cases hstands
          · next hapart =>
            refine .inr ⟨fun other hmem => ?_, hstands⟩
            rcases List.mem_cons.1 hmem with rfl | hmem
            · exact hapart
            · exact hnot other hmem
    · rintro (⟨other, hmem, rfl, rfl, rfl⟩ | ⟨hnot, hstands⟩)
      · rcases List.mem_cons.1 hmem with rfl | hmem
        · refine .inr ⟨fun second hsecond => (hother second hsecond).2, ?_⟩
          rw [write, if_pos rfl]
        · refine .inl ⟨other, hmem, rfl, rfl, ?_⟩
          have hapart := (hother other hmem).1
          rw [write, if_neg (ne_of_not_isPrefix hapart), if_neg hapart]
      · refine .inr ⟨fun other hmem => hnot other (List.mem_cons_of_mem _ hmem), ?_⟩
        have hapart := hnot file (by simp)
        rw [write, if_neg (ne_of_not_isPrefix hapart), if_neg hapart]
        exact hstands

end View

/-! ## Files that can be saved -/

/-- Whether a file system lets a path be taken below a directory: no name of it is too long, and neither is
the whole. -/
def FitsBelow (top : Location) (path : String) : Prop :=
  FileSystem.Short (Text.split '/' path) ∧
    ((Path.fromRoot top).child path).text.utf8ByteSize ≤ FileSystem.maxPathSize

namespace Emitter

open FileSystem

variable {fs : FileSystem} {top : Location}

/-- A file that was saved fits where it was saved, and its place was taken. -/
theorem takes_of_run_saveFile_ok (hs : fs.Sound) (hu : fs.Unlinked top) (htop : Proper top)
    {file : String × String} (hfile : Segmented file.1) {path : Path} {t : FileSystem}
    (h : (saveFile (.fromRoot top) file).run fs = (.ok path, t)) :
    FitsBelow top file.1 ∧ (fs.view top).Takes (Text.split '/' file.1) := by
  have hall : Proper (top ++ Text.split '/' file.1) := htop.append (proper_of_startsPlain hfile)
  have hfree : fs.LinkFree [] (top ++ Text.split '/' file.1) := hu.linkFree _
  have hne : Text.split '/' file.1 ≠ [] := Text.split_ne_nil _
  rw [saveFile_eq hall.of_append_right] at h
  obtain ⟨⟨⟩, u, hmake, h⟩ := exists_of_run_bind_ok h
  obtain ⟨⟨⟩, v, hwrite, -⟩ := exists_of_run_bind_ok h
  rw [← List.dropLast_append_of_ne_nil hne] at hmake
  -- directories stand above the place now, so that nothing else stood there before
  obtain ⟨hgrown, hsame, hway, -⟩ := made_above hs (by simp [hne]) hall hfree hmake
  obtain ⟨-, place, hlocate, hstands, -⟩ := run_writeText_ok_iff.1 hwrite
  obtain ⟨rfl, -⟩ := locate_fromRoot_inv hlocate hall (hgrown.linkFree hfree)
  obtain ⟨hsize, links, -, hlead⟩ := locate_eq_ok_iff.1 hlocate
  have hshort : Short (top ++ Text.split '/' file.1) := hlead.short hall (hgrown.linkFree hfree)
  refine ⟨⟨fun name hname => hshort name (List.mem_append_right _ hname), ?_⟩, ?_, fun rest hrest hne => ?_⟩
  · rw [hfile.child]
    exact hsize
  · rw [hsame] at hstands
    exact hstands
  · have hstands := hway (top ++ rest) ((List.prefix_append_right_inj top).2 hrest)
      fun he => hne (List.append_cancel_left he)
    show fs.get? (top ++ rest) = none ∨ fs.get? (top ++ rest) = some .directory
    cases hentry : fs.get? (top ++ rest) with
    | none => exact .inl rfl
    | some entry =>
      have hkept := hgrown.kept hentry
      rw [hstands] at hkept
      exact .inr hkept.symm

/-- A file can be saved where the tree takes it and no link stands, on a path that can be said and is not too long. -/
theorem exists_run_saveFile_fromRoot (hs : fs.Sound) {file : String × String}
    (hp : Proper (top ++ Text.split '/' file.1)) (hshort : Short (top ++ Text.split '/' file.1))
    (hsay : (Path.fromRoot (top ++ Text.split '/' file.1)).Sayable)
    (hsize : (Path.fromRoot (top ++ Text.split '/' file.1)).text.utf8ByteSize ≤ maxPathSize)
    (htakes : View.Takes fs.get? (top ++ Text.split '/' file.1))
    (hlink : ∀ target, fs.get? (top ++ Text.split '/' file.1) ≠ some (.link target)) :
    ∃ path t, (saveFile (.fromRoot top) file).run fs = (.ok path, t) := by
  have hne : Text.split '/' file.1 ≠ [] := Text.split_ne_nil _
  have hin : (top ++ Text.split '/' file.1).dropLast <+: top ++ Text.split '/' file.1 := List.dropLast_prefix _
  have hfree : fs.LinkFree [] (top ++ Text.split '/' file.1) := by
    intro location hl _ target htarget
    by_cases he : location = top ++ Text.split '/' file.1
    · exact hlink target (he ▸ htarget)
    · rcases htakes.2 location hl he with h | h <;> rw [List.nil_append, h] at htarget <;> cases htarget
  obtain ⟨u, hmake⟩ := exists_run_makeDirectories hs (hp.of_isPrefix hin)
    (fun name hname => hshort name (hin.subset hname)) (hsay.of_isPrefix hin)
    ((Path.text_le_of_isPrefix hin).trans hsize) fun location hl =>
      htakes.2 location (hl.trans hin) (by rintro rfl; exact not_isPrefix_dropLast (by simp [hne]) hl)
  obtain ⟨hgrown, hsame, hstands, -⟩ := made_above hs (by simp [hne]) hp hfree hmake
  have hlocate : u.locate .write (.fromRoot (top ++ Text.split '/' file.1)) =
      .ok (top ++ Text.split '/' file.1) :=
    locate_fromRoot hsize hp hshort hstands fun target htarget => absurd (hsame ▸ htarget) (hlink target)
  have hplace : u.get? (top ++ Text.split '/' file.1) ≠ some .directory := by
    rw [hsame]
    exact htakes.1
  obtain ⟨v, hwrite⟩ : ∃ v, (writeText (.fromRoot (top ++ Text.split '/' file.1)) file.2).run u = (.ok (), v) :=
    ⟨_, run_writeText_ok_iff.2 ⟨hsay.text, _, hlocate, hplace, rfl⟩⟩
  refine ⟨.fromRoot (top ++ Text.split '/' file.1), v, ?_⟩
  rw [List.dropLast_append_of_ne_nil hne] at hmake
  rw [saveFile_eq hp.of_append_right, run_bind_of_ok hmake, run_bind_of_ok hwrite, run_pure]

/-- A file that fits below a directory can be saved there when its place is taken. -/
theorem exists_run_saveFile (hs : fs.Sound) (hd : fs.get? top = some .directory) (hu : fs.Unlinked top)
    (hsay : (Path.fromRoot top).Sayable) (htop : Proper top) {file : String × String}
    (hfile : Segmented file.1) (hfits : FitsBelow top file.1)
    (htakes : (fs.view top).Takes (Text.split '/' file.1)) :
    ∃ path t, (saveFile (.fromRoot top) file).run fs = (.ok path, t) := by
  have hchild : (Path.fromRoot top).child file.1 = .fromRoot (top ++ Text.split '/' file.1) := hfile.child _
  refine exists_run_saveFile_fromRoot hs (htop.append (proper_of_startsPlain hfile)) (fun name hname => ?_)
    (hchild ▸ hsay.child hfile.faultless) (hchild ▸ hfits.2) ⟨htakes.1, fun location hl hne => ?_⟩
    (hu _ (.inr (List.prefix_append _ _)))
  · rcases List.mem_append.1 hname with hname | hname
    · have hnil : top ≠ [] := List.ne_nil_of_mem hname
      exact hs.short (htop.not_isNameless hnil) (by rw [hd]; rfl) name hname
    · exact hfits.1 name hname
  · -- above the directory there are only directories, and below it is what the view takes the place by
    rcases List.prefix_or_prefix_of_prefix hl (List.prefix_append top _) with habove | ⟨rest, rfl⟩
    · exact .inr (hs.rooted hd htop habove)
    · exact htakes.2 rest ((List.prefix_append_right_inj top).1 hl) fun he => hne (he ▸ rfl)

/-- Files can be saved below a directory when their paths fit there and they are taken one after another. -/
theorem saveFiles_ok_iff_takesAll (hs : fs.Sound) (hd : fs.get? top = some .directory)
    (hu : fs.Unlinked top) (hsay : (Path.fromRoot top).Sayable) (htop : Proper top) {code : Emitter}
    (hfiles : ∀ file ∈ code.files, Segmented file.1) :
    (∃ paths t, (code.saveFiles (.fromRoot top)).run fs = (.ok paths, t)) ↔
      (∀ file ∈ code.files, FitsBelow top file.1) ∧ (fs.view top).TakesAll code.files := by
  unfold saveFiles
  generalize code.files = files at hfiles
  induction files generalizing fs with
  | nil => exact ⟨fun _ => ⟨by simp, trivial⟩, fun _ => ⟨[], fs, rfl⟩⟩
  | cons file rest ih =>
    have hfile := hfiles file (by simp)
    have hrest : ∀ other ∈ rest, Segmented other.1 :=
      fun other hother => hfiles other (List.mem_cons_of_mem _ hother)
    -- where the first file is saved, the others go into the view that has it
    have hnext : ∀ {path : Path} {u : FileSystem}, (saveFile (.fromRoot top) file).run fs = (.ok path, u) →
        ((∃ paths t, (rest.mapM (saveFile (.fromRoot top))).run u = (.ok paths, t)) ↔
          (∀ other ∈ rest, FitsBelow top other.1) ∧
            ((fs.view top).write (Text.split '/' file.1) file.2).TakesAll rest) := by
      intro path u hfirst
      obtain ⟨honly, hview⟩ := run_saveFile_below hs hd hu htop hfile hfirst
      rw [← hview]
      exact ih honly.sound honly.directory honly.unlinked hrest
    rw [View.TakesAll, List.forall_mem_cons]
    constructor
    · rintro ⟨paths, t, h⟩
      obtain ⟨path, u, paths', hfirst, hothers, -⟩ := run_mapM_cons_ok h
      obtain ⟨hfits, htakes⟩ := takes_of_run_saveFile_ok hs hu htop hfile hfirst
      obtain ⟨hfits', htakes'⟩ := (hnext hfirst).1 ⟨paths', t, hothers⟩
      exact ⟨⟨hfits, hfits'⟩, htakes, htakes'⟩
    · rintro ⟨⟨hfits, hfits'⟩, htakes, htakes'⟩
      obtain ⟨path, u, hfirst⟩ := exists_run_saveFile hs hd hu hsay htop hfile hfits htakes
      obtain ⟨paths, t, hothers⟩ := (hnext hfirst).2 ⟨hfits', htakes'⟩
      refine ⟨path :: paths, t, ?_⟩
      rw [List.mapM_cons, run_bind_of_ok hfirst, run_bind_of_ok hothers, run_pure]

/-- Files can be saved into an empty directory exactly when their paths fit there and the place of none lies
above that of another. -/
theorem saveFiles_ok_iff (hs : fs.Sound) (hempty : fs.IsEmptyDirectory top)
    (hsay : (Path.fromRoot top).Sayable) (htop : Proper top) {code : Emitter}
    (hfiles : ∀ file ∈ code.files, Segmented file.1) :
    (∃ paths t, (code.saveFiles (.fromRoot top)).run fs = (.ok paths, t)) ↔
      (∀ file ∈ code.files, FitsBelow top file.1) ∧ View.PrefixFree code.files := by
  rw [saveFiles_ok_iff_takesAll hs hempty.1 (hempty.unlinked hs htop) hsay htop hfiles, hempty.2,
    View.takesAll_iff]
  refine and_congr_right fun _ => and_iff_right fun file hfile => ?_
  exact View.takes_empty (proper_of_startsPlain (hfiles file hfile)) (Text.split_ne_nil _)

end Emitter

end ProviderBindings
