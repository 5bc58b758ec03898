import ProviderBindings.Proofs.Emitting
import ProviderBindings.Proofs.FileSystem.Making

/-!
# What is saved

Saving adds directories and files to a tree and takes nothing away but the contents of files it writes
again (`Filled`), so that a path leads afterwards where it led before. The last file saved is found where
it was saved to (`run_saveFiles_append_ok`).
-/

namespace ProviderBindings

namespace FileSystem

variable {fs t u : FileSystem} {ending : Ending}

/-- Whether a tree is another with new directories, and with files that are new or have a new content. -/
structure Filled (fs t : FileSystem) : Prop where
  /-- What stood somewhere still does, and is of the same kind. -/
  carries : Carries fs t
  /-- The working directory is the same. -/
  working : t.workingDirectory = fs.workingDirectory
  /-- The same file is held open. -/
  held : t.held = fs.held
  /-- The tree is sound. -/
  sound : t.Sound

/-- What has grown is filled. -/
theorem Grown.filled (h : Grown fs t) (hs : fs.Sound) : Filled fs t :=
  ⟨h.carries, h.working, h.held, h.sound hs⟩

/-- What was filled twice is filled. -/
theorem Filled.trans (h : Filled fs t) (ht : Filled t u) : Filled fs u :=
  ⟨Carries.trans h.carries ht.carries, ht.working.trans h.working, ht.held.trans h.held, ht.sound⟩

/-- A path to a directory leads there still in a tree that was filled. -/
theorem Filled.locate (h : Filled fs t) {p : Path} {place : Location}
    (hl : fs.locate .follow p = .ok place) (hd : fs.get? place = some .directory) :
    t.locate .follow p = .ok place := by
  refine locate_carried hl h.carries (startOf_eq h.working _) fun hn => ?_
  rw [hd] at hn
  cases hn

/-- A file put where a path leads to a file or to nothing fills a tree. -/
theorem Sound.filled_put (hs : fs.Sound) {p : Path} (hp : p.Written) {place : Location}
    (hl : fs.locate .write p = .ok place) (hd : fs.get? place ≠ some .directory) (c : Content)
    (x : Bool) : Filled fs (fs.put place (.file c x)) := by
  obtain ⟨hproper, hshort, hne, hparent⟩ := hs.free_place hp hl hd
  have hname : ¬isNameless place := hproper.not_isNameless hne
  refine ⟨?_, rfl, rfl, hs.put hproper hshort hne hparent (fun he => absurd he hd) ?_⟩
  · intro location entry he
    rw [get?_put _ _ hname]
    split
    · next hplace =>
      subst hplace
      refine ⟨.file c x, rfl, ?_⟩
      cases entry with
      | file _ _ => trivial
      | directory => exact absurd he hd
      | link target => exact absurd he (hs.not_link hl (by decide) target)
    · exact Carries.refl fs he
  · exact fun _ => ⟨c, x, rfl⟩

/-- A text that was written fills a tree and is found where it was written to. -/
theorem run_writeText_ok (hs : fs.Sound) {p : Path} (hp : p.Written) {s : String}
    (h : (writeText p s).run fs = (.ok (), t)) :
    Filled fs t ∧ ∃ x, t.status .follow p = .ok (some (.file (.text s) x)) := by
  obtain ⟨hfault, place, hl, hd, rfl⟩ := run_writeText_ok_iff.1 h
  have hname : ¬isNameless place := not_isNameless_of_get?_ne hd
  have hfilled := hs.filled_put hp hl hd (.text s) (isExecutable (fs.get? place))
  refine ⟨hfilled, isExecutable (fs.get? place), status_eq_some_iff.2 ⟨hfault, place, ?_, ?_⟩⟩
  · obtain ⟨hsize, links, hlinks, hlead⟩ := locate_eq_ok_iff.1 hl
    have hfollow : fs.Leads .follow links (fs.startOf p) p.names place :=
      hlead.follow (hs.not_link hl (by decide))
    refine locate_eq_ok_iff.2 ⟨hsize, links, hlinks, hfollow.carried hfilled.carries fun _ => ?_⟩
    simp [get?_put _ _ hname]
  · rw [get?_put _ _ hname, if_pos rfl]

end FileSystem

namespace Emitter

open FileSystem

variable {fs t : FileSystem} {root : Path}

/-- A file that was saved fills a tree and is found where it was saved to. -/
theorem run_saveFile_ok (hs : fs.Sound) (hp : root.Written) {file : String × String} {path : Path}
    (h : (saveFile root file).run fs = (.ok path, t)) :
    path = root.child file.1 ∧ Filled fs t ∧
      ∃ x, t.status .follow path = .ok (some (.file (.text file.2) x)) := by
  unfold saveFile at h
  obtain ⟨⟨⟩, u, hmade, h⟩ := exists_of_run_bind_ok h
  obtain ⟨⟨⟩, v, hwritten, h⟩ := exists_of_run_bind_ok h
  rw [run_pure] at h
  cases h
  have htarget : (root.child file.1).Written := hp.child file.1
  obtain ⟨hgrown, -⟩ := run_makeDirectories_ok hs htarget.parent hmade
  obtain ⟨hfilled, hfound⟩ := run_writeText_ok (hgrown.sound hs) htarget hwritten
  exact ⟨rfl, (hgrown.filled hs).trans hfilled, hfound⟩

/-- Files that were saved fill a tree. -/
theorem run_mapM_saveFile_ok (hs : fs.Sound) (hp : root.Written) {files : List (String × String)}
    {paths : List Path} (h : (files.mapM (saveFile root)).run fs = (.ok paths, t)) :
    Filled fs t := by
  induction files generalizing fs paths with
  | nil =>
    cases h
    exact ⟨Carries.refl _, rfl, rfl, hs⟩
  | cons file rest ih =>
    obtain ⟨path, u, paths', hfile, hrest, rfl⟩ := run_mapM_cons_ok h
    obtain ⟨-, hfilled, -⟩ := run_saveFile_ok hs hp hfile
    exact hfilled.trans (ih hfilled.sound hrest)

/-- The last of the files that were saved is found where it was saved to. -/
theorem run_saveFiles_append_ok (hs : fs.Sound) (hp : root.Written) {e : Emitter}
    {front : List (String × String)} {last : String × String} (he : e.files = front ++ [last])
    {paths : List Path} (h : (e.saveFiles root).run fs = (.ok paths, t)) :
    Filled fs t ∧ paths.getLast? = some (root.child last.1) ∧
      ∃ x, t.status .follow (root.child last.1) = .ok (some (.file (.text last.2) x)) := by
  unfold saveFiles at h
  rw [he, List.mapM_append] at h
  obtain ⟨before, u, hfront, h⟩ := exists_of_run_bind_ok h
  obtain ⟨after, v, hlast, h⟩ := exists_of_run_bind_ok h
  rw [run_pure] at h
  cases h
  have hfilled := run_mapM_saveFile_ok hs hp hfront
  obtain ⟨path, w, none', hfile, hnil, rfl⟩ := run_mapM_cons_ok hlast
  obtain ⟨rfl, hfilled', hfound⟩ := run_saveFile_ok hfilled.sound hp hfile
  cases hnil
  exact ⟨hfilled.trans hfilled', by simp, hfound⟩

end Emitter

end ProviderBindings
