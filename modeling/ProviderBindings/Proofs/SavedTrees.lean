import ProviderBindings.Proofs.Collecting
import ProviderBindings.Proofs.Fitting

/-!
# Saving into a tree that has room

A tree has room for files below a location when each of them is taken where its path leads from there: nothing but
directories stands on the way, missing ones apart, and a file or nothing at its end. Besides room a save needs paths
that the operating system takes, and texts that there are bytes for (`Receives`). Files whose places do not lie above
one another do not take the room from each other, so all of them are saved, and then each stands at its place with
directories on the way there, and everything else is as it was (`Saved`). A tree that has the files already is left as
it is, and room at one location is not taken by what is saved at another that is neither above it nor below it.
-/

namespace ProviderBindings

open FileSystem

/-- Whether a path from the root can be given to the operating system: it is not too long, and neither is any of its
names, which hold nothing that no path can. -/
structure FileSystem.Usable (place : Location) : Prop where
  /-- No name is longer than a name may be. -/
  short : Short place
  /-- The path is no longer than a path may be. -/
  size : (Path.fromRoot place).text.utf8ByteSize ≤ maxPathSize
  /-- The path holds no null character and no half of a surrogate pair. -/
  faultless : PathFault.ofText? (Path.fromRoot place).text = none

instance (place : Location) : Decidable (Usable place) :=
  decidable_of_iff (Short place ∧ (Path.fromRoot place).text.utf8ByteSize ≤ maxPathSize ∧
    PathFault.ofText? (Path.fromRoot place).text = none) ⟨fun ⟨h, h', h''⟩ => ⟨h, h', h''⟩, fun h => ⟨h.1, h.2, h.3⟩⟩

/-- The first names of a path that can be given can be given. -/
theorem FileSystem.Usable.of_isPrefix {top place : Location} (h : Usable place) (ht : top <+: place) : Usable top := by
  have hnames := PathFault.ofText?_text.1 h.faultless
  exact ⟨fun name hname => h.short name (ht.subset hname), (Path.text_le_of_isPrefix ht).trans h.size,
    PathFault.ofText?_text.2 fun name hname => hnames name (ht.subset hname)⟩

/-- A path of proper names that can be given can be said. -/
theorem FileSystem.Usable.sayable {place : Location} (h : Usable place) (hp : Proper place) :
    (Path.fromRoot place).Sayable :=
  ⟨hp.written, PathFault.ofText?_text.1 h.faultless⟩

namespace Emitter

/-- Where a file is saved below a location. -/
def placeIn (top : Location) (file : String × String) : Location :=
  top ++ Text.split '/' file.1

/-- Whether files can stand side by side: their paths are relative and normalized, without double dots, and that of none
leads on from that of another. -/
structure SideBySide (files : List (String × String)) : Prop where
  /-- The names of each path are those of a location. -/
  proper : ∀ file ∈ files, Proper (Text.split '/' file.1)
  /-- Of two paths none leads on from the other, nor is it the same. -/
  apart : files.Pairwise fun a b =>
    ¬Text.split '/' a.1 <+: Text.split '/' b.1 ∧ ¬Text.split '/' b.1 <+: Text.split '/' a.1

/-- Whether a tree has room for files below a location: no directory or link stands at the place of one, and nothing but
directories on the way there. -/
structure Roomy (top : Location) (files : List (String × String)) (fs : FileSystem) : Prop where
  /-- No directory stands at the place of a file, and on the way there are directories or nothing. -/
  takes : ∀ file ∈ files, View.Takes fs.get? (placeIn top file)
  /-- No link stands at the place of a file. -/
  unlinked : ∀ file ∈ files, ∀ target, fs.get? (placeIn top file) ≠ some (.link target)

/-- Whether a tree is another in which files were saved below a location: they stand at their places, directories on the
way there, and everything else is as it was. -/
structure Saved (top : Location) (files : List (String × String)) (fs t : FileSystem) : Prop where
  /-- Each file stands at its place with its text, and can be run if the one that stood there could be. -/
  written : ∀ file ∈ files, t.get? (placeIn top file) =
    some (.file (.text file.2) (isExecutable (fs.get? (placeIn top file))))
  /-- Directories stand on the way to it. -/
  above : ∀ file ∈ files, ∀ {location}, location <+: placeIn top file → location ≠ placeIn top file →
    t.get? location = some .directory
  /-- What is neither a file nor on the way to one is as it was. -/
  elsewhere : ∀ {location}, (∀ file ∈ files, ¬location <+: placeIn top file) → t.get? location = fs.get? location
  /-- The working directory is the same. -/
  working : t.workingDirectory = fs.workingDirectory
  /-- The file that is held open is the same. -/
  held : t.held = fs.held

variable {fs t u : FileSystem} {top : Location} {file : String × String} {files rest : List (String × String)}

/-! ## Files that stand side by side -/

/-- What stands side by side does so without the first file. -/
theorem SideBySide.tail (h : SideBySide (file :: rest)) : SideBySide rest :=
  ⟨fun other hother => h.proper other (List.mem_cons_of_mem _ hother), (List.pairwise_cons.1 h.apart).2⟩

/-- The place of the first of such files and that of another are not above one another. -/
theorem SideBySide.head_apart (h : SideBySide (file :: rest)) (top : Location) {other : String × String}
    (hother : other ∈ rest) :
    ¬placeIn top file <+: placeIn top other ∧ ¬placeIn top other <+: placeIn top file := by
  unfold placeIn
  rw [List.prefix_append_right_inj, List.prefix_append_right_inj]
  exact (List.pairwise_cons.1 h.apart).1 other hother

/-- The places of such files below a proper location are proper. -/
theorem SideBySide.proper_placeIn (h : SideBySide files) (htop : Proper top) (hfile : file ∈ files) :
    Proper (placeIn top file) :=
  htop.append (h.proper file hfile)

/-- Places below locations that are not above one another are not either. -/
theorem not_isPrefix_placeIn {other : Location} {file' : String × String} (h : ¬top <+: other) (h' : ¬other <+: top) :
    ¬placeIn top file <+: placeIn other file' := by
  intro hpre
  exact not_prefix_append h h' ((List.prefix_append _ _).trans hpre)

/-! ## Room -/

/-- No link stands on the way to a place that a tree has room at. -/
theorem Roomy.linkFree (h : Roomy top files fs) (hfile : file ∈ files) : fs.LinkFree [] (placeIn top file) := by
  intro location hl _ target htarget
  rw [List.nil_append] at htarget
  by_cases he : location = placeIn top file
  · exact h.unlinked file hfile target (he ▸ htarget)
  · rcases (h.takes file hfile).2 location hl he with hnone | hdir
    · rw [hnone] at htarget
      cases htarget
    · rw [hdir] at htarget
      cases htarget

/-- Where a directory is missing in one that is there, a tree has room for files below it. -/
theorem roomy_of_missing (hs : fs.Sound) (htop : Proper top) (hparent : fs.get? top.dropLast = some .directory)
    (hnone : fs.get? top = none) (hfiles : SideBySide files) : Roomy top files fs := by
  have hplace : ∀ file ∈ files, fs.get? (placeIn top file) = none := fun file hfile =>
    hs.none_of_isPrefix hnone (List.prefix_append _ _)
      ((hfiles.proper_placeIn htop hfile).not_isNameless (by simp [placeIn, Text.split_ne_nil]))
  refine ⟨fun file hfile => ⟨by simp [hplace file hfile], fun location hl _ => ?_⟩,
    fun file hfile target => by simp [hplace file hfile]⟩
  -- on the way there is what is above the missing directory, then it, then what would be below it
  rcases List.prefix_or_prefix_of_prefix hl (List.prefix_append _ _) with habove | hbelow
  · by_cases he : location = top
    · exact .inl (he ▸ hnone)
    · exact .inr (hs.rooted hparent (htop.of_isPrefix (List.dropLast_prefix _)) (isPrefix_dropLast habove he))
  · by_cases hnil : location = []
    · exact .inr (hnil ▸ rfl)
    · exact .inl (hs.none_of_isPrefix hnone hbelow
        (((hfiles.proper_placeIn htop hfile).of_isPrefix hl).not_isNameless hnil))

/-- A file that is written where there is room leaves room for the others. -/
theorem Roomy.write (h : Roomy top (file :: rest) fs) (hfiles : SideBySide (file :: rest))
    (hget : t.get? = View.write fs.get? (placeIn top file) file.2) : Roomy top rest t := by
  refine ⟨fun other hother => ?_, fun other hother target => ?_⟩
  · obtain ⟨hout, hin⟩ := hfiles.head_apart top hother
    rw [hget, View.takes_write_iff (h.takes file (by simp))]
    refine ⟨h.takes other (List.mem_cons_of_mem _ hother), ⟨fun hpre => absurd hpre hout, fun he => ?_⟩,
      ⟨fun hpre => absurd hpre hin, fun he => ?_⟩⟩
    · exact he ▸ List.prefix_refl _
    · exact he ▸ List.prefix_refl _
  · obtain ⟨-, hin⟩ := hfiles.head_apart top hother
    rw [hget, View.write, if_neg (View.ne_of_not_isPrefix hin), if_neg hin]
    exact h.unlinked other (List.mem_cons_of_mem _ hother) target

/-! ## What is saved -/

/-- A tree is another in which no files were saved. -/
theorem Saved.nil (top : Location) (fs : FileSystem) : Saved top [] fs fs :=
  ⟨by simp, by simp, fun _ => rfl, rfl, rfl⟩

/-- Where one file was written and then others were saved, all of them were. -/
theorem Saved.cons (hfiles : SideBySide (file :: rest)) (hget : t.get? = View.write fs.get? (placeIn top file) file.2)
    (hworking : t.workingDirectory = fs.workingDirectory) (hheld : t.held = fs.held) (h : Saved top rest t u) :
    Saved top (file :: rest) fs u := by
  have hout : ∀ other ∈ rest, ¬placeIn top file <+: placeIn top other ∧ ¬placeIn top other <+: placeIn top file :=
    fun other hother => hfiles.head_apart top hother
  refine ⟨fun other hother => ?_, fun other hother location hl hne => ?_, fun {location} hl => ?_,
    h.working.trans hworking, h.held.trans hheld⟩
  · rcases List.mem_cons.1 hother with rfl | hother
    · rw [h.elsewhere fun file hfile => (hout file hfile).1, hget, View.write, if_pos rfl]
    · have hin := (hout other hother).2
      rw [h.written other hother, hget, View.write, if_neg (View.ne_of_not_isPrefix hin), if_neg hin]
  · rcases List.mem_cons.1 hother with rfl | hother
    · -- above the first file, and perhaps above another one as well
      by_cases habove : ∃ file ∈ rest, location <+: placeIn top file
      · obtain ⟨file, hfile, hpre⟩ := habove
        exact h.above file hfile hpre fun he => (hout file hfile).2 (he ▸ hl)
      · push Not at habove
        rw [h.elsewhere habove, hget, View.write, if_neg hne, if_pos hl]
    · exact h.above other hother hl hne
  · have hfirst := hl file (by simp)
    rw [h.elsewhere fun other hother => hl other (List.mem_cons_of_mem _ hother), hget, View.write,
      if_neg (View.ne_of_not_isPrefix hfirst), if_neg hfirst]

/-- Files that stand side by side are saved where there is room for them and their paths can be given. -/
theorem run_mapM_saveFile_roomy (hs : fs.Sound) (htop : Proper top) (hfiles : SideBySide files)
    (hroom : Roomy top files fs) (husable : ∀ file ∈ files, Usable (placeIn top file)) :
    ∃ t, (files.mapM (saveFile (.fromRoot top))).run fs =
      (.ok (files.map fun file => .fromRoot (placeIn top file)), t) ∧
      t.Sound ∧ Saved top files fs t := by
  -- on the files; each is written in a tree that has room for it, and leaves room for the rest
  induction files generalizing fs with
  | nil => exact ⟨fs, rfl, hs, .nil top fs⟩
  | cons file rest ih =>
    have hmem : file ∈ file :: rest := by simp
    have hp : Proper (placeIn top file) := hfiles.proper_placeIn htop hmem
    have hcan := husable file hmem
    obtain ⟨path, u, hfirst⟩ := exists_run_saveFile_fromRoot hs hp hcan.short (hcan.sayable hp) hcan.size
      (hroom.takes file hmem) (hroom.unlinked file hmem)
    obtain ⟨rfl, hget⟩ := get?_of_run_saveFile hs hp (hroom.linkFree hmem) hfirst
    have hfilled := (run_saveFile_ok hs htop.written hfirst).2.1
    obtain ⟨t, hothers, hsound, hsaved⟩ := ih hfilled.sound hfiles.tail (hroom.write hfiles hget)
      fun other hother => husable other (List.mem_cons_of_mem _ hother)
    refine ⟨t, ?_, hsound, .cons hfiles hget hfilled.working hfilled.held hsaved⟩
    rw [List.mapM_cons, run_bind_of_ok hfirst, run_bind_of_ok hothers, run_pure]
    rfl

/-- A file other than those that were saved is there after it exactly when it was before. -/
theorem Saved.file_iff (h : Saved top files fs t) (hroom : Roomy top files fs) {location : Location}
    (hl : ∀ file ∈ files, location ≠ placeIn top file) {c : Content} {x : Bool} :
    t.get? location = some (.file c x) ↔ fs.get? location = some (.file c x) := by
  by_cases habove : ∃ file ∈ files, location <+: placeIn top file
  · obtain ⟨file, hfile, hpre⟩ := habove
    rw [h.above file hfile hpre (hl file hfile)]
    rcases (hroom.takes file hfile).2 location hpre (hl file hfile) with he | he <;> simp [he]
  · push Not at habove
    rw [h.elsewhere habove]

/-- What is a directory after files were saved was one before, or is above one of the files. -/
theorem Saved.directory_cases (h : Saved top files fs t) {location : Location}
    (hd : t.get? location = some .directory) :
    fs.get? location = some .directory ∨
      ∃ file ∈ files, location <+: placeIn top file ∧ location ≠ placeIn top file := by
  by_cases habove : ∃ file ∈ files, location <+: placeIn top file
  · obtain ⟨file, hfile, hpre⟩ := habove
    refine .inr ⟨file, hfile, hpre, ?_⟩
    rintro rfl
    rw [h.written file hfile] at hd
    cases hd
  · push Not at habove
    rw [h.elsewhere habove] at hd
    exact .inl hd

/-- Links are where they were when files were saved where there was room. -/
theorem Saved.sameLinks (h : Saved top files fs t) (hroom : Roomy top files fs) : SameLinks fs t := by
  intro location target
  by_cases habove : ∃ file ∈ files, location <+: placeIn top file
  · obtain ⟨file, hfile, hpre⟩ := habove
    by_cases he : location = placeIn top file
    · subst he
      rw [h.written file hfile]
      simpa using hroom.unlinked file hfile target
    · rw [h.above file hfile hpre he]
      rcases (hroom.takes file hfile).2 location hpre he with hbefore | hbefore <;> simp [hbefore]
  · push Not at habove
    rw [h.elsewhere habove]

/-- A file that was saved is read back at its path. -/
theorem Saved.status_eq (h : Saved top files fs t) (hp : Proper (placeIn top file)) (hcan : Usable (placeIn top file))
    (hfile : file ∈ files) :
    t.status .follow (.fromRoot (placeIn top file)) =
      .ok (some (.file (.text file.2) (isExecutable (fs.get? (placeIn top file))))) := by
  have hentry := h.written file hfile
  refine status_eq_some_iff.2 ⟨hcan.faultless, placeIn top file, ?_, hentry⟩
  refine locate_fromRoot hcan.size hp hcan.short (fun location hl hne => h.above file hfile hl hne)
    fun target htarget => ?_
  rw [hentry] at htarget
  cases htarget

/-- Room at one location is not taken by what was saved at another that is neither above it nor below it. -/
theorem Saved.roomy (h : Saved top files fs t) {other : Location} (hroom : Roomy other files fs)
    (hout : ¬top <+: other) (hin : ¬other <+: top) : Roomy other files t := by
  have hplace : ∀ file, t.get? (placeIn other file) = fs.get? (placeIn other file) := fun file =>
    h.elsewhere fun file' _ => not_isPrefix_placeIn hin hout
  refine ⟨fun file hfile => ⟨?_, fun location hl hne => ?_⟩, fun file hfile target => ?_⟩
  · rw [hplace]
    exact (hroom.takes file hfile).1
  · by_cases habove : ∃ file ∈ files, location <+: placeIn top file
    · obtain ⟨file', hfile', hpre⟩ := habove
      refine .inr (h.above file' hfile' hpre ?_)
      rintro rfl
      exact not_isPrefix_placeIn hout hin hl
    · push Not at habove
      rw [h.elsewhere habove]
      exact (hroom.takes file hfile).2 location hl hne
  · rw [hplace]
    exact hroom.unlinked file hfile target

/-- A file that stands at its place, with directories on the way, is saved again without a change. -/
theorem run_saveFile_there (hs : fs.Sound) (hp : Proper (placeIn top file)) (hcan : Usable (placeIn top file))
    (hway : ∀ {location}, location <+: placeIn top file → location ≠ placeIn top file →
      fs.get? location = some .directory)
    {x : Bool} (hfile : fs.get? (placeIn top file) = some (.file (.text file.2) x)) :
    (saveFile (.fromRoot top) file).run fs = (.ok (.fromRoot (placeIn top file)), fs) := by
  have hne : Text.split '/' file.1 ≠ [] := Text.split_ne_nil _
  have hdrop : top ++ (Text.split '/' file.1).dropLast <+: placeIn top file :=
    (List.prefix_append_right_inj top).2 (List.dropLast_prefix _)
  have hparent : fs.get? (top ++ (Text.split '/' file.1).dropLast) = some .directory := by
    refine hway hdrop fun he => not_isPrefix_dropLast hne ?_
    rw [List.append_cancel_left (he : _ = top ++ Text.split '/' file.1)]
  have hlocate : fs.locate .write (.fromRoot (placeIn top file)) = .ok (placeIn top file) :=
    locate_fromRoot hcan.size hp hcan.short (fun _ hl hother => hway hl hother) fun target htarget => by
      rw [hfile] at htarget
      cases htarget
  have hmake := run_makeDirectories_there hs (hp.of_isPrefix hdrop) (hcan.of_isPrefix hdrop).short
    ((hcan.of_isPrefix hdrop).sayable (hp.of_isPrefix hdrop)) (hcan.of_isPrefix hdrop).size hparent
  have hsame : fs = fs.put (placeIn top file) (.file (.text file.2) (isExecutable (fs.get? (placeIn top file)))) := by
    have hname : ¬isNameless (placeIn top file) := not_isNameless_of_get?_ne (by rw [hfile]; simp)
    have hentry := hfile
    rw [get?_of_not_isNameless hname] at hentry
    rw [hfile, put]
    exact congrArg (fun entries => { fs with entries }) (Assoc.set_of_get?_some hentry).symm
  have hwrite : (writeText (.fromRoot (placeIn top file)) file.2).run fs = (.ok (), fs) :=
    run_writeText_ok_iff.2 ⟨hcan.faultless, placeIn top file, hlocate, by simp [hfile], hsame⟩
  rw [saveFile_eq hp.of_append_right, run_bind_of_ok hmake]
  exact run_bind_of_ok hwrite _

/-- Files that were saved are saved again without a change. -/
theorem Saved.run_again (h : Saved top files fs t) (ht : t.Sound) (htop : Proper top) (hfiles : SideBySide files)
    (husable : ∀ file ∈ files, Usable (placeIn top file)) :
    (files.mapM (saveFile (.fromRoot top))).run t = (.ok (files.map fun file => .fromRoot (placeIn top file)), t) := by
  have hone : ∀ file ∈ files, (saveFile (.fromRoot top) file).run t = (.ok (.fromRoot (placeIn top file)), t) :=
    fun file hfile => run_saveFile_there ht (hfiles.proper_placeIn htop hfile) (husable file hfile)
      (h.above file hfile) (h.written file hfile)
  clear h hfiles husable
  induction files with
  | nil => rfl
  | cons file rest ih =>
    have hrest := ih fun other hother => hone other (List.mem_cons_of_mem _ hother)
    rw [List.mapM_cons, run_bind_of_ok (hone file (by simp)), run_bind_of_ok hrest, run_pure]
    rfl

/-- What was saved at one location changes nothing at another that is neither above it nor below it, or below that. -/
theorem Saved.get?_append (h : Saved top files fs t) {other : Location} (hout : ¬top <+: other) (hin : ¬other <+: top)
    (more : Location) : t.get? (other ++ more) = fs.get? (other ++ more) :=
  h.elsewhere fun _ _ hpre => not_prefix_append hin hout ((List.prefix_append _ _).trans hpre)

/-- Where the same stood at one place below each of two locations, the same does after files were saved to both. -/
theorem Saved.get?_eq (h : Saved top files fs t) {other : Location} (h' : Saved other files t u) (hout : ¬top <+: other)
    (hin : ¬other <+: top) {more : Location} (hsame : fs.get? (top ++ more) = fs.get? (other ++ more)) :
    u.get? (other ++ more) = u.get? (top ++ more) := by
  have hfirst : u.get? (top ++ more) = t.get? (top ++ more) := h'.get?_append hin hout more
  have hsecond : t.get? (other ++ more) = fs.get? (other ++ more) := h.get?_append hout hin more
  rw [hfirst]
  by_cases habove : ∃ file ∈ files, more <+: Text.split '/' file.1
  · obtain ⟨file, hfile, hpre⟩ := habove
    by_cases he : more = Text.split '/' file.1
    · subst he
      calc u.get? (other ++ Text.split '/' file.1)
          = some (.file (.text file.2) (isExecutable (t.get? (placeIn other file)))) := h'.written file hfile
        _ = some (.file (.text file.2) (isExecutable (fs.get? (placeIn top file)))) := by
            rw [placeIn, hsecond, ← hsame, placeIn]
        _ = t.get? (top ++ Text.split '/' file.1) := (h.written file hfile).symm
    · have hway : ∀ location : Location,
          location ++ more <+: placeIn location file ∧ location ++ more ≠ placeIn location file :=
        fun location => ⟨(List.prefix_append_right_inj location).2 hpre, fun e => he (List.append_cancel_left e)⟩
      rw [h'.above file hfile (hway other).1 (hway other).2, h.above file hfile (hway top).1 (hway top).2]
  · push Not at habove
    have hnot : ∀ location : Location, ∀ file ∈ files, ¬location ++ more <+: placeIn location file :=
      fun location file hfile hpre => habove file hfile ((List.prefix_append_right_inj location).1 hpre)
    rw [h'.elsewhere (hnot other), h.elsewhere (hnot top), hsecond, hsame]

end Emitter

namespace Getter

open Emitter

variable {e : Emitter} {s t u : Session} {directory other : Path} {top place : Location}

/-- Whether the files of an emitter can be saved to a directory: it resolves to a location, the tree has room for them
below that, and their paths there and their texts can be given. -/
structure Receives (e : Emitter) (directory : Path) (top : Location) (s : Session) : Prop where
  /-- The directory is a path that can be written. -/
  written : directory.Written
  /-- The directory resolves to the location. -/
  resolves : (Host.resolve directory).run s.host = (.ok (.fromRoot top), s.host)
  /-- The tree has room for the files below the location. -/
  room : Roomy top e.files s.host.files
  /-- The operating system takes the paths of the files. -/
  usable : ∀ file ∈ e.files, Usable (placeIn top file)
  /-- There are bytes for the texts of the files: they hold no half of a surrogate pair. -/
  encodable : ∀ file ∈ e.files, Text.hasHalf file.2 = false

/-- What it is to save the files of an emitter to a directory that resolves to a location. -/
structure Saves (e : Emitter) (directory : Path) (top : Location) (s t : Session) : Prop where
  /-- The save succeeds, and gives the absolute paths in the order of the files. -/
  run : (save e directory).run s = (.ok (e.files.map fun file => .fromRoot (placeIn top file)), t)
  /-- Nothing but the file tree changes. -/
  frame : t = { s with host := { s.host with files := t.host.files } }
  /-- The tree is the one before with the files saved in it. -/
  tree : Saved top e.files s.host.files t.host.files
  /-- Each file is read back at its path. -/
  reads : ∀ file ∈ e.files, ∃ x,
    t.host.files.status .follow (.fromRoot (placeIn top file)) = .ok (some (.file (.text file.2) x))
  /-- Every other file is as it was. -/
  others : ∀ {location}, (∀ file ∈ e.files, location ≠ placeIn top file) → ∀ {c x},
    t.host.files.get? location = some (.file c x) ↔ s.host.files.get? location = some (.file c x)
  /-- New directories are above the files. -/
  directories : ∀ {location}, t.host.files.get? location = some .directory →
    s.host.files.get? location = some .directory ∨
      ∃ file ∈ e.files, location <+: placeIn top file ∧ location ≠ placeIn top file
  /-- The tree is sound again. -/
  sound : t.host.files.Sound

/-- What a directory resolves to is proper. -/
theorem Receives.proper (h : Receives e directory top s) (hs : s.host.files.Sound) : Proper top := by
  obtain ⟨-, -, hstart, hroot, -⟩ := run_resolve_ok_iff.1 h.resolves
  obtain ⟨place, hplace, hp⟩ := hs.proper_resolve h.written hstart
  have hnames := congrArg Path.names (hroot.trans hplace)
  exact (show top = place from hnames) ▸ hp

/-- Files that stand side by side are saved to a directory that receives them. -/
theorem Receives.exists_saves (h : Receives e directory top s) (hclosed : e.current = none)
    (hfiles : SideBySide e.files) (hs : s.host.files.Sound) : ∃ t, Saves e directory top s t := by
  have htop : Proper top := h.proper hs
  obtain ⟨fs, hrun, hsound, hsaved⟩ := run_mapM_saveFile_roomy hs htop hfiles h.room h.usable
  refine ⟨{ s with host := { s.host with files := fs } }, (run_save_iff hclosed h.resolves).2 ⟨fs, hrun, rfl⟩, rfl,
    hsaved, fun file hfile => ?_, fun {_} hl {_ _} => hsaved.file_iff h.room hl, hsaved.directory_cases, hsound⟩
  exact ⟨_, hsaved.status_eq (hfiles.proper_placeIn htop hfile) (h.usable file hfile) hfile⟩

/-- Where there is nothing to save, a save leaves the session as it is. -/
theorem Saves.eq_of_nil (h : Saves e directory top s t) (hnil : e.files = []) : t = s := by
  obtain ⟨root, fs, -, hsave, rfl⟩ := run_save_ok h.run
  rw [saveFiles, hnil] at hsave
  cases hsave
  rfl

/-- A directory resolves after a save as it did before, where there is room for the files below it. -/
theorem Saves.resolves (h : Saves e directory top s t) (hroom : Roomy top e.files s.host.files)
    (hs : s.host.files.Sound) (h' : Receives e other place s) :
    (Host.resolve other).run t.host = (.ok (.fromRoot place), t.host) := by
  by_cases hnil : e.files = []
  · rw [h.eq_of_nil hnil]
    exact h'.resolves
  obtain ⟨-, hfault, hstart, hroot, -⟩ := run_resolve_ok_iff.1 h'.resolves
  have hlinks : SameLinks s.host.files t.host.files := h.tree.sameLinks hroom
  obtain ⟨file, hfile⟩ := List.exists_mem_of_ne_nil _ hnil
  have hfree : t.host.files.LinkFree [] place := by
    intro location hl hne target htarget
    exact h'.room.linkFree hfile (hl.trans (List.prefix_append _ _)) hne target ((hlinks _ _).1 htarget)
  refine run_resolve_ok_iff.2 ⟨rfl, hfault, ?_, ?_, isEndless_of_linkFree (h'.proper hs) hfree⟩
  · rwa [h.tree.working]
  · rw [resolve_of_sameLinks hlinks (startOf_eq h.tree.working other)]
    exact hroot

/-- A directory that receives files does so after they were saved to another that is neither above it nor below it. -/
theorem Saves.receives (h : Saves e directory top s t) (hroom : Roomy top e.files s.host.files)
    (hs : s.host.files.Sound) (h' : Receives e other place s) (hout : ¬top <+: place) (hin : ¬place <+: top) :
    Receives e other place t :=
  ⟨h'.written, h.resolves hroom hs h', h.tree.roomy h'.room hout hin, h'.usable, h'.encodable⟩

/-- **A save writes the files and nothing else.** The files of a closed emitter, the paths of which are relative and
normalized, have no double dots and do not lead on from one another, are saved to a directory that receives them. Saved
there again they change nothing. Saved to a second directory that is apart from the first they leave that as it is, and
what stands at one place in both of them is the same afterwards if it was before. -/
theorem run_save_received (hclosed : e.current = none) (hfiles : SideBySide e.files) (hs : s.host.files.Sound)
    (h : Receives e directory top s) :
    ∃ t, Saves e directory top s t ∧
      (save e directory).run t = (.ok (e.files.map fun file => .fromRoot (placeIn top file)), t) ∧
      ∀ {other place}, Receives e other place s → ¬top <+: place → ¬place <+: top →
        ∃ u, Saves e other place t u ∧ u.host.files.view top = t.host.files.view top ∧
          ∀ rest, s.host.files.view top rest = s.host.files.view place rest →
            u.host.files.view place rest = u.host.files.view top rest := by
  obtain ⟨t, hsaves⟩ := h.exists_saves hclosed hfiles hs
  refine ⟨t, hsaves, ?_, fun {other place} h' hout hin => ?_⟩
  · have hagain := hsaves.tree.run_again hsaves.sound (h.proper hs) hfiles h.usable
    exact (run_save_iff hclosed (hsaves.resolves h.room hs h)).2 ⟨_, hagain, rfl⟩
  · have hreceives : Receives e other place t := hsaves.receives h.room hs h' hout hin
    obtain ⟨u, hsaves'⟩ := hreceives.exists_saves hclosed hfiles hsaves.sound
    refine ⟨u, hsaves', ?_, fun rest hsame => hsaves.tree.get?_eq hsaves'.tree hout hin hsame⟩
    funext rest
    exact hsaves'.tree.get?_append hin hout rest

/-! ## Two directories with the same files, and what cannot be saved -/

/-- An emitter with two files, one of which is in a directory of its own. -/
def twoFiles : Emitter :=
  { files := [("index.ts", "export * from './a/b';\n"), ("a/b.ts", "export const b = 1;\n")] }

/-- A session on the bare host. -/
def bareSession : Session := { host := RunOptions.bareHost }

/-- The paths of the two files are side by side. -/
theorem sideBySide_twoFiles : SideBySide twoFiles.files :=
  ⟨by decide +kernel, by decide +kernel⟩

/-- A directory of the bare host that is not there receives the two files. -/
theorem receives_twoFiles {name : String} (h : name = "one" ∨ name = "two") :
    Receives twoFiles (Path.ofString name) ["w", name] bareSession := by
  refine ⟨Path.written_ofString name, run_resolve_ok_iff.2 ⟨rfl, ?_, .inr rfl, ?_, ?_⟩,
    roomy_of_missing RunOptions.sound_bareHost ?_ rfl ?_ sideBySide_twoFiles, ?_, by decide⟩
  all_goals rcases h with rfl | rfl <;> decide +kernel

/-- The two files are saved to one directory, again to the same and then to another, and the two directories are the
same in the end. -/
theorem run_save_received_twice :
    ∃ t u, (save twoFiles (Path.ofString "one")).run bareSession =
        (.ok [.fromRoot ["w", "one", "index.ts"], .fromRoot ["w", "one", "a", "b.ts"]], t) ∧
      (save twoFiles (Path.ofString "one")).run t =
        (.ok [.fromRoot ["w", "one", "index.ts"], .fromRoot ["w", "one", "a", "b.ts"]], t) ∧
      (save twoFiles (Path.ofString "two")).run t =
        (.ok [.fromRoot ["w", "two", "index.ts"], .fromRoot ["w", "two", "a", "b.ts"]], u) ∧
      u.host.files.view ["w", "one"] = t.host.files.view ["w", "one"] ∧
      ∀ rest, bareSession.host.files.view ["w", "one"] rest = bareSession.host.files.view ["w", "two"] rest →
        u.host.files.view ["w", "two"] rest = u.host.files.view ["w", "one"] rest := by
  obtain ⟨t, hsaves, hagain, hsecond⟩ := run_save_received rfl sideBySide_twoFiles RunOptions.sound_bareHost
    (receives_twoFiles (.inl rfl))
  obtain ⟨u, hsaves', hkept, hequal⟩ := hsecond (receives_twoFiles (.inr rfl)) (by decide) (by decide)
  exact ⟨t, u, hsaves.run, hagain, hsaves'.run, hkept, hequal⟩

/-- A host where a path leads by way of a link to itself, and back from there, to a link that leads nowhere. -/
def danglingHost : Host :=
  { files :=
      { entries := [(["w"], .directory), (["w", "loop"], .link "loop"), (["w", "out"], .link "nowhere")]
        workingDirectory := ["w"] }
    temporary := .fromRoot ["w"] }

/-- Not everything is saved that there is room for. A name may be too long for a file. And a directory may resolve to
where a link stands, behind one that leads to itself, which is neither a file that is in the way nor a link below the
directory. -/
theorem not_saved_always :
    (¬∀ (e : Emitter) (directory : Path) (top : Location) (s : Session),
      e.current = none → SideBySide e.files → s.host.files.Sound → directory.Written →
      (Host.resolve directory).run s.host = (.ok (.fromRoot top), s.host) → Roomy top e.files s.host.files →
      ∃ paths t, (save e directory).run s = (.ok paths, t)) ∧
    ¬∀ (e : Emitter) (directory : Path) (top : Location) (s : Session),
      e.current = none → SideBySide e.files → s.host.files.Sound → directory.Written →
      (Host.resolve directory).run s.host = (.ok (.fromRoot top), s.host) →
      (∀ file ∈ e.files, ∀ location, location <+: placeIn top file →
        ∀ c x, s.host.files.get? location ≠ some (.file c x)) →
      (∀ file ∈ e.files, s.host.files.get? (placeIn top file) ≠ some .directory) →
      (∀ rest, rest ≠ [] → ∀ target, s.host.files.get? (top ++ rest) ≠ some (.link target)) →
      (∀ file ∈ e.files, Usable (placeIn top file)) →
      ∃ paths t, (save e directory).run s = (.ok paths, t) := by
  constructor
  · intro hall
    obtain ⟨hsplit, hsegmented⟩ := Harvester.segmented_longName
    have hs : bareSession.host.files.Sound := RunOptions.sound_bareHost
    have hfiles : SideBySide [(Harvester.longName, "")] :=
      ⟨by simpa using proper_of_startsPlain hsegmented, List.pairwise_singleton _ _⟩
    have hresolve : (Host.resolve (Path.ofString "out")).run bareSession.host =
        (.ok (.fromRoot ["w", "out"]), bareSession.host) :=
      run_resolve_ok_iff.2 ⟨rfl, by decide +kernel, .inr rfl, by decide +kernel, by decide +kernel⟩
    obtain ⟨paths, t, hrun⟩ := hall { files := [(Harvester.longName, "")] } (Path.ofString "out") ["w", "out"]
      bareSession rfl hfiles hs (by decide) hresolve (roomy_of_missing hs (by decide) rfl (by decide +kernel) hfiles)
    obtain ⟨fs, hsave, -⟩ := (run_save_iff rfl hresolve).1 hrun
    obtain ⟨path, u, -, hfirst, -⟩ := run_mapM_cons_ok hsave
    have hunlinked : bareSession.host.files.Unlinked ["w", "out"] := fun location _ =>
      get?_ne_link_of_isUnlinked (by decide +kernel) location
    have hfile : Segmented ((Harvester.longName, "") : String × String).1 := hsegmented
    obtain ⟨⟨hshort, -⟩, -⟩ := takes_of_run_saveFile_ok hs hunlinked (by decide) hfile hfirst
    exact absurd (hshort Harvester.longName (by simp [hsplit])) (by decide +kernel)
  · intro hall
    have hkeys : ∀ entry ∈ danglingHost.files.entries, entry.1.length ≤ 2 ∧ ∀ c x, entry.2 ≠ .file c x := by
      simp [danglingHost]
    have hentry : ∀ {location entry}, danglingHost.files.get? location = some entry → entry ≠ .directory →
        location.length ≤ 2 ∧ ∀ c x, entry ≠ .file c x := by
      intro location entry hget hne
      rw [get?_of_not_isNameless fun hname => hne (by simpa [get?_of_isNameless hname] using hget.symm)] at hget
      exact hkeys _ (Assoc.mem_of_get?_eq_some hget)
    have hbelow : ∀ rest, rest ≠ [] → ∀ target,
        danglingHost.files.get? (["w", "out"] ++ rest) ≠ some (.link target) := by
      intro rest hne target hget
      have hlength := (hentry hget (by simp)).1
      simp at hlength
      exact hne hlength
    obtain ⟨paths, t, hrun⟩ := hall { files := [("a", "x")] } (Path.ofString "loop/../out") ["w", "out"]
      { host := danglingHost } rfl ⟨by decide, by decide⟩ (sound_of_isSound (by decide +kernel)) (by decide)
      (run_resolve_ok_iff.2 ⟨rfl, by decide +kernel, .inr rfl, by decide +kernel, by decide +kernel⟩)
      (fun _ _ location _ c x hget => (hentry hget (by simp)).2 c x rfl) (by decide +kernel)
      hbelow (by decide +kernel)
    have hfails : ((save { files := [("a", "x")] } (Path.ofString "loop/../out")).run
        { host := danglingHost }).1.toOption = none := by decide +kernel
    rw [hrun] at hfails
    cases hfails

end Getter

end ProviderBindings
