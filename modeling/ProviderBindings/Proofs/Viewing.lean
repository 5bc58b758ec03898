import ProviderBindings.Proofs.FileSystem.Likeness
import ProviderBindings.Proofs.Saving

/-!
# What stands below a directory

The view of a directory is what stands below it, told by the names from there on. Files that are saved
below a directory without links are written into its view, one after another, and change nothing else
(`run_saveFiles_below`), so that the view afterwards depends on the view before and the files alone.
Saving succeeds in one tree as it does in any other that has the same view and the same directories above
it (`agrees_saveFiles`).
-/

namespace ProviderBindings

/-- What stands below a directory, by the names from there on. -/
abbrev View := Location → Option Entry

namespace View

/-- The view with a text written at a place, and directories that lead there. -/
def write (view : View) (place : Location) (text : String) : View := fun rest =>
  if rest = place then some (.file (.text text) (FileSystem.isExecutable (view place)))
  else if rest <+: place then some .directory
  else view rest

/-- The view with files written one after another, each at the place that its path spells. -/
def writeAll (view : View) (files : List (String × String)) : View :=
  files.foldl (fun view file => view.write (Text.split '/' file.1) file.2) view

/-- The view of an empty directory. -/
def empty : View := fun rest => if FileSystem.isNameless rest then some .directory else none

end View

namespace FileSystem

variable {fs t u : FileSystem} {ending : Ending} {top : Location}

/-- The view of the directory at a location. -/
def view (fs : FileSystem) (top : Location) : View := fun rest => fs.get? (top ++ rest)

/-- Whether a directory stands at a location, with nothing below it. -/
def IsEmptyDirectory (fs : FileSystem) (top : Location) : Prop :=
  fs.get? top = some .directory ∧ fs.view top = View.empty

/-- Whether two trees are the same but for what is below a directory, on the way to which no link
stands, nor below it. -/
structure OnlyBelow (top : Location) (fs t : FileSystem) : Prop where
  /-- What is not at or below the directory is the same. -/
  elsewhere : ∀ {location}, ¬top <+: location → t.get? location = fs.get? location
  /-- The directory is there. -/
  directory : t.get? top = some .directory
  /-- No link stands there, below it or on the way to it. -/
  unlinked : t.Unlinked top
  /-- The working directory is the same. -/
  working : t.workingDirectory = fs.workingDirectory
  /-- The same file is held open. -/
  held : t.held = fs.held
  /-- The tree is sound. -/
  sound : t.Sound

/-- A tree is the same as itself. -/
theorem OnlyBelow.refl (hs : fs.Sound) (hd : fs.get? top = some .directory) (hu : fs.Unlinked top) :
    OnlyBelow top fs fs :=
  ⟨fun _ => rfl, hd, hu, rfl, rfl, hs⟩

/-- What is changed twice below a directory is changed only below it. -/
theorem OnlyBelow.trans (h : OnlyBelow top fs t) (ht : OnlyBelow top t u) : OnlyBelow top fs u :=
  ⟨fun hl => (ht.elsewhere hl).trans (h.elsewhere hl), ht.directory, ht.unlinked,
    ht.working.trans h.working, ht.held.trans h.held, ht.sound⟩

/-- A text that is put into a tree with directories on the way to its place is written there. -/
theorem get?_put_text {place : Location} (hname : ¬isNameless place)
    (hway : ∀ location, location <+: place → location ≠ place → fs.get? location = some .directory) (text : String) :
    (fs.put place (.file (.text text) (isExecutable (fs.get? place)))).get? = View.write fs.get? place text := by
  funext location
  rw [get?_put _ _ hname, View.write]
  by_cases he : location = place
  · rw [if_pos he.symm, if_pos he]
  · rw [if_neg fun h => he h.symm, if_neg he]
    split
    · next hpre => exact hway location hpre he
    · rfl

/-- A text written at a place below a directory, with the directories that lead there, changes the view of
the directory and nothing else. -/
theorem onlyBelow_of_write (hs : fs.Sound) (hd : fs.get? top = some .directory) (hu : fs.Unlinked top)
    (htop : Proper top) {place : Location} (hne : place ≠ []) {text : String}
    (hget : t.get? = View.write fs.get? (top ++ place) text)
    (hworking : t.workingDirectory = fs.workingDirectory) (hheld : t.held = fs.held)
    (hsound : t.Sound) :
    OnlyBelow top fs t ∧ t.view top = (fs.view top).write place text := by
  refine ⟨⟨?_, ?_, ?_, hworking, hheld, hsound⟩, ?_⟩
  · intro location hl
    rw [hget, View.write, if_neg]
    · split
      -- directories above the one that is written below stood there before
      · next hpre =>
        rcases List.prefix_or_prefix_of_prefix hpre (List.prefix_append top _) with h | h
        · rw [hs.rooted hd htop h]
        · exact absurd h hl
      · rfl
    · rintro rfl
      exact hl (List.prefix_append top place)
  · rw [hget, View.write, if_neg, if_pos (List.prefix_append _ _)]
    intro he
    exact hne (List.append_right_eq_self.1 he.symm)
  · intro location hl target htarget
    rw [hget, View.write] at htarget
    split at htarget
    · cases htarget
    · split at htarget
      · cases htarget
      · exact hu location hl target htarget
  · funext rest
    show t.get? (top ++ rest) = _
    rw [hget]
    simp only [View.write, List.append_cancel_left_eq, List.prefix_append_right_inj]
    rfl

/-- A text that was written under a name in a directory that a path leads to is written into its view, and nothing
else changes. -/
theorem run_writeText_below (hs : fs.Sound) {p : Path} (hwritten : p.Written) (hl : fs.locate .follow p = .ok top)
    (hd : fs.get? top = some .directory) (hu : fs.Unlinked top) (htop : Proper top) {name : String}
    (hname : Proper [name]) {text : String} (hwrite : (writeText (p.child name) text).run fs = (.ok (), t)) :
    OnlyBelow top fs t ∧ t.view top = (fs.view top).write [name] text := by
  have hsound : t.Sound := (run_writeText_ok hs (hwritten.child _) hwrite).1.sound
  rw [Path.child_of_isName p (hname _ (by simp)).1] at hwrite
  obtain ⟨-, place, hlocate, hfree, rfl⟩ := run_writeText_ok_iff.1 hwrite
  have hlinks : fs.LinkFree top [name] := fun _ _ target => hu _ (.inr (List.prefix_append _ _)) target
  obtain ⟨rfl, -⟩ := locate_append_inv hl hlocate (by simp) hname hlinks
  refine onlyBelow_of_write hs hd hu htop (by simp) ?_ rfl rfl hsound
  refine get?_put_text (not_isNameless_of_get?_ne hfree) (fun location hl hne => hs.rooted hd htop ?_) text
  simpa using isPrefix_dropLast hl hne

/-- The directories that are made above a place stand then, and what does not lie above the place is as it was. -/
theorem made_above (hs : fs.Sound) {place : Location} (hne : place ≠ []) (hp : Proper place)
    (hl : fs.LinkFree [] place) (h : (makeDirectories (.fromRoot place.dropLast)).run fs = (.ok (), t)) :
    Grown fs t ∧ t.get? place = fs.get? place ∧
      (∀ location, location <+: place → location ≠ place → t.get? location = some .directory) ∧
      ∀ location, ¬location <+: place → t.get? location = fs.get? location := by
  have hdrop : place.dropLast <+: place := List.dropLast_prefix _
  have hdirs : Proper place.dropLast := hp.of_isPrefix hdrop
  have hwhere := run_makeDirectories_fromRoot_ok hs hdirs (fun ht => hl (ht.trans hdrop)) h
  refine ⟨(run_makeDirectories_ok hs hdirs.written h).1, ?_, fun location hpre hother => ?_, fun location hnot => ?_⟩
  · rw [hwhere, if_neg (not_isPrefix_dropLast hne)]
  · rw [hwhere, if_pos (isPrefix_dropLast hpre hother)]
  · rw [hwhere, if_neg fun hpre => hnot (hpre.trans hdrop)]

end FileSystem

namespace Emitter

open FileSystem

variable {fs t : FileSystem} {top : Location}

/-- A file whose path is made of proper names is saved by writing it at the place its path spells, once the
directories above that place are made. -/
theorem saveFile_eq {file : String × String} (hfile : Proper (Text.split '/' file.1)) :
    saveFile (.fromRoot top) file = (do
      makeDirectories (.fromRoot (top ++ (Text.split '/' file.1).dropLast))
      writeText (.fromRoot (top ++ Text.split '/' file.1)) file.2
      pure (.fromRoot (top ++ Text.split '/' file.1))) := by
  have htarget : (Path.fromRoot top).child file.1 = .fromRoot (top ++ Text.split '/' file.1) :=
    Path.child_of_proper hfile _
  have hparent : (Path.fromRoot (top ++ Text.split '/' file.1)).parent =
      .fromRoot (top ++ (Text.split '/' file.1).dropLast) := by
    show Path.fromRoot (top ++ Text.split '/' file.1).dropLast = _
    rw [List.dropLast_append_of_ne_nil (Text.split_ne_nil _)]
  unfold saveFile
  rw [htarget]
  dsimp only
  rw [hparent]

/-- A file that was saved on a way without links was written into the tree at the place its path spells. -/
theorem get?_of_run_saveFile (hs : fs.Sound) {file : String × String}
    (hp : Proper (top ++ Text.split '/' file.1)) (hl : fs.LinkFree [] (top ++ Text.split '/' file.1))
    {path : Path} (h : (saveFile (.fromRoot top) file).run fs = (.ok path, t)) :
    path = .fromRoot (top ++ Text.split '/' file.1) ∧
      t.get? = View.write fs.get? (top ++ Text.split '/' file.1) file.2 := by
  have hne : Text.split '/' file.1 ≠ [] := Text.split_ne_nil _
  rw [saveFile_eq hp.of_append_right] at h
  obtain ⟨⟨⟩, u, hmake, h⟩ := exists_of_run_bind_ok h
  obtain ⟨⟨⟩, v, hwrite, h⟩ := exists_of_run_bind_ok h
  rw [run_pure] at h
  cases h
  rw [← List.dropLast_append_of_ne_nil hne] at hmake
  obtain ⟨hgrown, hsame, hway, helse⟩ := made_above hs (by simp [hne]) hp hl hmake
  obtain ⟨-, place, hlocate, hfree, rfl⟩ := run_writeText_ok_iff.1 hwrite
  obtain ⟨rfl, -⟩ := locate_fromRoot_inv hlocate hp (hgrown.linkFree hl)
  refine ⟨rfl, ?_⟩
  rw [get?_put_text (not_isNameless_of_get?_ne hfree) hway]
  funext location
  -- the directories on the way are those of the written tree, and there is nothing else that was made
  unfold View.write
  split
  · rw [hsame]
  · split
    · rfl
    · next hnot => exact helse location hnot

/-- A file that was saved below a directory was written into its view, and nothing else was changed. -/
theorem run_saveFile_below (hs : fs.Sound) (hd : fs.get? top = some .directory)
    (hu : fs.Unlinked top) (htop : Proper top) {file : String × String} (hfile : Segmented file.1)
    {path : Path} (h : (saveFile (.fromRoot top) file).run fs = (.ok path, t)) :
    OnlyBelow top fs t ∧ t.view top = (fs.view top).write (Text.split '/' file.1) file.2 := by
  have hfilled := (run_saveFile_ok hs htop.written h).2.1
  obtain ⟨-, hget⟩ := get?_of_run_saveFile hs (htop.append (proper_of_startsPlain hfile)) (hu.linkFree _) h
  exact onlyBelow_of_write hs hd hu htop (Text.split_ne_nil _) hget hfilled.working hfilled.held hfilled.sound

/-- Files that were saved below a directory were written into its view one after another, and nothing else
was changed. -/
theorem run_saveFiles_below (hs : fs.Sound) (hd : fs.get? top = some .directory)
    (hu : fs.Unlinked top) (htop : Proper top) {code : Emitter}
    (hfiles : ∀ file ∈ code.files, Segmented file.1) {paths : List Path}
    (h : (code.saveFiles (.fromRoot top)).run fs = (.ok paths, t)) :
    OnlyBelow top fs t ∧ t.view top = (fs.view top).writeAll code.files := by
  unfold saveFiles at h
  generalize code.files = files at hfiles h ⊢
  -- on the files; each leaves a sound tree in which a directory without links still leads on
  induction files generalizing fs paths with
  | nil =>
    cases h
    exact ⟨.refl hs hd hu, rfl⟩
  | cons file rest ih =>
    obtain ⟨path, u, paths', hfirst, hrest, rfl⟩ := run_mapM_cons_ok h
    obtain ⟨honly, hview⟩ := run_saveFile_below hs hd hu htop (hfiles file (by simp)) hfirst
    obtain ⟨honly', hview'⟩ := ih honly.sound honly.directory honly.unlinked
      (fun file hfile => hfiles file (List.mem_cons_of_mem _ hfile)) hrest
    refine ⟨honly.trans honly', ?_⟩
    rw [hview', hview]
    rfl

/-- Whether or not directories can be made below a directory, nothing else is changed. -/
theorem onlyBelow_makeDirectories (hs : fs.Sound) (hd : fs.get? top = some .directory)
    (hu : fs.Unlinked top) {names : Location} (hp : Proper (top ++ names))
    {result : Except FileFailure Unit}
    (h : (makeDirectories (.fromRoot (top ++ names))).run fs = (result, t)) : OnlyBelow top fs t := by
  have htop : Proper top := hp.of_isPrefix (List.prefix_append _ _)
  have hgrown : Grown fs t := grown_makeDirectories hs hp.written h
  refine ⟨fun {location} hl => ?_, hgrown.kept hd, fun location hl target htarget => ?_, hgrown.working,
    hgrown.held, hgrown.sound hs⟩
  · by_cases hway : location <+: top ++ names
    · have habove : location <+: top :=
        (List.prefix_or_prefix_of_prefix hway (List.prefix_append _ _)).resolve_right hl
      have hthere := hs.rooted hd htop habove
      rw [hthere, hgrown.kept hthere]
    · exact elsewhere_makeDirectories hs hp (hu.linkFree _) h hway
  · cases hbefore : fs.get? location with
    | none => cases hgrown.new hbefore htarget
    | some entry =>
      have hkept := hgrown.kept hbefore
      rw [htarget] at hkept
      cases hkept
      exact hu location hl target hbefore

/-- Whether or not a file can be saved below a directory, nothing else is changed. -/
theorem onlyBelow_saveFile (hs : fs.Sound) (hd : fs.get? top = some .directory)
    (hu : fs.Unlinked top) (htop : Proper top) {file : String × String} (hfile : Segmented file.1)
    {result : Except FileFailure Path}
    (h : (saveFile (.fromRoot top) file).run fs = (result, t)) : OnlyBelow top fs t := by
  cases result with
  | ok path => exact (run_saveFile_below hs hd hu htop hfile h).1
  | error failure =>
    -- the file itself was not written, so that at most directories were made
    have hplace : Proper (Text.split '/' file.1) := proper_of_startsPlain hfile
    have hdirs : Proper (top ++ (Text.split '/' file.1).dropLast) :=
      htop.append (hplace.of_isPrefix (List.dropLast_prefix _))
    rw [saveFile_eq hplace, run_bind] at h
    rcases hmake : (makeDirectories (.fromRoot (top ++ (Text.split '/' file.1).dropLast))).run fs with
      ⟨failure' | ⟨⟩, u⟩
    · rw [hmake] at h
      cases h
      exact onlyBelow_makeDirectories hs hd hu hdirs hmake
    · rw [hmake] at h
      dsimp only at h
      rw [run_bind] at h
      rcases hwrite : (writeText (.fromRoot (top ++ Text.split '/' file.1)) file.2).run u with
        ⟨failure' | ⟨⟩, v⟩
      · rw [hwrite] at h
        cases h
        obtain rfl := run_writeText_error hwrite
        exact onlyBelow_makeDirectories hs hd hu hdirs hmake
      · rw [hwrite] at h
        cases h

/-- Whether or not files can be saved below a directory, nothing else is changed. -/
theorem onlyBelow_saveFiles (hs : fs.Sound) (hd : fs.get? top = some .directory)
    (hu : fs.Unlinked top) (htop : Proper top) {code : Emitter}
    (hfiles : ∀ file ∈ code.files, Segmented file.1) {result : Except FileFailure (List Path)}
    (h : (code.saveFiles (.fromRoot top)).run fs = (result, t)) : OnlyBelow top fs t := by
  unfold saveFiles at h
  generalize code.files = files at hfiles h
  induction files generalizing fs t result with
  | nil =>
    cases h
    exact .refl hs hd hu
  | cons file rest ih =>
    rw [List.mapM_cons, run_bind] at h
    rcases hfirst : (saveFile (.fromRoot top) file).run fs with ⟨first, u⟩
    have hone := onlyBelow_saveFile hs hd hu htop (hfiles file (by simp)) hfirst
    rw [hfirst] at h
    cases first with
    | error failure =>
      cases h
      exact hone
    | ok path =>
      dsimp only at h
      rw [run_bind] at h
      rcases hothers : (rest.mapM (saveFile (.fromRoot top))).run u with ⟨others, v⟩
      have hrest := ih hone.sound hone.directory hone.unlinked
        (fun file hfile => hfiles file (List.mem_cons_of_mem _ hfile)) hothers
      rw [hothers] at h
      cases others <;> cases h <;> exact hone.trans hrest

end Emitter

/-! ## Saving in one tree as in another -/

namespace FileSystem

variable {fs t : FileSystem} {top : Location}

/-- Whether two trees are the same on the way to a location and below it, where no link stands. -/
structure Near (top : Location) (fs t : FileSystem) : Prop where
  /-- On the way to the location and below it, the trees are the same. -/
  same : ∀ {location}, location <+: top ∨ top <+: location → t.get? location = fs.get? location
  /-- No link stands there in the one, and so none in the other. -/
  unlinked : fs.Unlinked top

/-- Trees that are near each other are so when the same is put into both, which is no link. -/
theorem Near.put (h : Near top fs t) {place : Location} (hname : ¬isNameless place) {entry : Entry}
    (hentry : ∀ target, entry ≠ .link target) : Near top (fs.put place entry) (t.put place entry) := by
  refine ⟨fun {location} hl => ?_, fun location hl target htarget => ?_⟩
  · rw [get?_put _ _ hname, get?_put _ _ hname, h.same hl]
  · rw [get?_put _ _ hname] at htarget
    split at htarget
    · exact hentry target (Option.some.inj htarget)
    · exact h.unlinked location hl target htarget

/-- A directory that is put where nothing stood is empty. -/
theorem Sound.isEmptyDirectory_put (hs : fs.Sound) (hfree : fs.get? top = none) :
    (fs.put top .directory).IsEmptyDirectory top := by
  have hname : ¬isNameless top := not_isNameless_of_get?_none hfree
  have hthere : (fs.put top .directory).get? top = some .directory := by
    rw [get?_put _ _ hname, if_pos rfl]
  refine ⟨hthere, funext fun rest => ?_⟩
  show (fs.put top .directory).get? (top ++ rest) = View.empty rest
  unfold View.empty
  by_cases hrest : rest = []
  · rw [hrest, List.append_nil, hthere]
    rfl
  by_cases hnone : isNameless rest
  · rw [if_pos hnone, get?_of_isNameless]
    rwa [isNameless_append hrest]
  · rw [if_neg hnone, get?_put _ _ hname, if_neg (by simpa using hrest)]
    exact hs.none_of_isPrefix hfree (List.prefix_append _ _) (by rwa [isNameless_append hrest])

/-- No link stands on the way to an empty directory. -/
theorem IsEmptyDirectory.unlinked (h : fs.IsEmptyDirectory top) (hs : fs.Sound) (htop : Proper top) :
    fs.Unlinked top := by
  rintro location (hl | ⟨rest, rfl⟩) target htarget
  · rw [hs.rooted h.1 htop hl] at htarget
    cases htarget
  · have hview : fs.get? (top ++ rest) = View.empty rest := congrFun h.2 rest
    rw [hview] at htarget
    unfold View.empty at htarget
    split at htarget <;> cases htarget

/-- Trees with an empty directory at one location are near each other. -/
theorem near_of_isEmptyDirectory (hs : fs.Sound) (ht : t.Sound) (htop : Proper top)
    (h : fs.IsEmptyDirectory top) (h' : t.IsEmptyDirectory top) : Near top fs t := by
  refine ⟨?_, h.unlinked hs htop⟩
  rintro location (hl | ⟨rest, rfl⟩)
  · rw [hs.rooted h.1 htop hl, ht.rooted h'.1 htop hl]
  · exact (congrFun h'.2 rest).trans (congrFun h.2 rest).symm

/-- Trees that are near each other are insensitive to the paths to their directory and below it. -/
theorem insensitive_near {names : Location} (hp : Proper names)
    (hc : names <+: top ∨ top <+: names) : Insensitive (Near top) (.fromRoot names) := by
  have hway : ∀ {other}, other <+: names → other <+: top ∨ top <+: other := by
    intro other ho
    rcases hc with h | h
    · exact .inl (ho.trans h)
    · exact List.prefix_or_prefix_of_prefix ho h
  have hfree : ∀ {fs : FileSystem}, fs.Unlinked top → fs.LinkFree [] names :=
    fun hu _ ho _ => hu _ (hway ho)
  refine ⟨fun hr => ?_, fun {fs t ending place} hr hl => ?_, fun {fs t place} hr hl hn => ?_⟩
  · exact locate_fromRoot_eq hp (hfree hr.unlinked) fun other ho => hr.same (hway ho)
  · obtain ⟨rfl, -⟩ := locate_fromRoot_inv hl hp (hfree hr.unlinked)
    unfold shapeAt
    rw [hr.same hc]
  · obtain ⟨rfl, -⟩ := locate_fromRoot_inv hl hp (hfree hr.unlinked)
    exact hr.put (not_isNameless_of_get?_none hn) (by simp)

/-- A text can be written below a directory in both of two trees near each other or in neither. -/
theorem agrees_writeText {names : Location} (hp : Proper names) (hc : top <+: names) (text : String) :
    Agrees (Near top) (writeText (.fromRoot names) text) := by
  intro fs t hr
  rw [writeText, run_bind, run_bind, run_locateM, run_locateM,
    (insensitive_near hp (.inr hc)).locate hr]
  cases PathFault.ofText? (Path.fromRoot names).text with
  | some fault => exact ⟨rfl, hr⟩
  | none =>
    cases hl : fs.locate .write (.fromRoot names) with
    | error e => exact ⟨rfl, hr⟩
    | ok place =>
      have hfree : fs.LinkFree [] names := by
        obtain ⟨rest, rfl⟩ := hc
        exact hr.unlinked.linkFree rest
      obtain ⟨rfl, -⟩ := locate_fromRoot_inv hl hp hfree
      -- whether a file can be executed is kept, and that is the same in both trees
      have hput : ∀ x, fs.get? place ≠ some .directory →
          Near top (fs.put place (.file (.text text) x)) (t.put place (.file (.text text) x)) :=
        fun _ hd => hr.put (not_isNameless_of_get?_ne hd) (by simp)
      dsimp only
      rw [run_bind, run_bind, run_get, run_get]
      dsimp only
      rw [hr.same (.inr hc)]
      cases hentry : fs.get? place with
      | none => exact ⟨rfl, hput false (by simp [hentry])⟩
      | some entry =>
        cases entry with
        | directory => exact ⟨rfl, hr⟩
        | file content executable => exact ⟨rfl, hput executable (by simp [hentry])⟩
        | link target => exact ⟨rfl, hput false (by simp [hentry])⟩

/-- Files can be saved below a directory in both of two trees near each other or in neither. -/
theorem agrees_saveFiles (htop : Proper top) {code : Emitter}
    (hfiles : ∀ file ∈ code.files, Segmented file.1) :
    Agrees (Near top) (code.saveFiles (.fromRoot top)) := by
  unfold Emitter.saveFiles
  generalize code.files = files at hfiles
  -- on the files; the trees stay near each other, so the next one can be saved in both or in neither
  induction files with
  | nil => exact agrees_pure []
  | cons file rest ih =>
    have hfile : Segmented file.1 := hfiles file (by simp)
    have hplace : Proper (top ++ Text.split '/' file.1) := htop.append (proper_of_startsPlain hfile)
    have hup : top ++ (Text.split '/' file.1).dropLast <+: top ++ Text.split '/' file.1 :=
      (List.prefix_append_right_inj top).2 (List.dropLast_prefix _)
    have hway : ∀ {names}, names <+: top ++ Text.split '/' file.1 → names <+: top ∨ top <+: names :=
      fun h => List.prefix_or_prefix_of_prefix h (List.prefix_append top _)
    rw [List.mapM_cons]
    refine Agrees.bind ?_ fun path => ?_
    · rw [Emitter.saveFile_eq (proper_of_startsPlain hfile)]
      refine Agrees.bind ?_ fun _ => (agrees_writeText hplace (List.prefix_append _ _) _).bind
        fun _ => agrees_pure _
      refine agrees_makeDirectories (hplace.of_isPrefix hup).written ?_
      rintro ⟨anchor, names⟩ rfl hnames
      have hpre : names <+: top ++ Text.split '/' file.1 := hnames.trans hup
      exact insensitive_near (hplace.of_isPrefix hpre) (hway hpre)
    · exact (ih fun file hfile => hfiles file (List.mem_cons_of_mem _ hfile)).bind
        fun paths => agrees_pure (path :: paths)

/-- What can be saved into an empty directory can be saved into one at the same location in any tree. -/
theorem run_saveFiles_of_isEmptyDirectory (hs : fs.Sound) (ht : t.Sound) (htop : Proper top)
    (hempty : fs.IsEmptyDirectory top) (hempty' : t.IsEmptyDirectory top) {code : Emitter}
    (hfiles : ∀ file ∈ code.files, Segmented file.1) {paths : List Path} {u : FileSystem}
    (h : (code.saveFiles (.fromRoot top)).run fs = (.ok paths, u)) :
    ∃ v, (code.saveFiles (.fromRoot top)).run t = (.ok paths, v) := by
  obtain ⟨hresult, -⟩ := agrees_saveFiles htop hfiles _ _
    (near_of_isEmptyDirectory hs ht htop hempty hempty')
  have hok : ((code.saveFiles (.fromRoot top)).run fs).1 = .ok paths := by rw [h]
  exact ⟨((code.saveFiles (.fromRoot top)).run t).2, Prod.ext (hresult.trans hok) rfl⟩

end FileSystem

end ProviderBindings
