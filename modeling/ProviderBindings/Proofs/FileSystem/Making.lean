import ProviderBindings.Proofs.Running
import ProviderBindings.Proofs.FileSystem.Walking

/-!
# Making directories and files

What it means that a directory or a file could be made. `run_makeDirectoryAt` and `run_writeText_ok_iff` are the
two steps that change a tree; everything else is a look at it. Directories made on the way to a path are
new and take the place of nothing (`Grown`), and on a path without links they are exactly the ones that
were missing (`run_makeDirectories_fromRoot_ok`).
-/

namespace ProviderBindings.FileSystem

variable {fs t : FileSystem} {ending : Ending}

/-! ## Looks and handlers -/

/-- A look finds an entry when the path leads to it. -/
theorem status_eq_some_iff {p : Path} {entry : Entry} :
    fs.status ending p = .ok (some entry) ↔
      PathFault.ofText? p.text = none ∧
        ∃ place, fs.locate ending p = .ok place ∧ fs.get? place = some entry := by
  unfold status
  by_cases hfault : (PathFault.ofText? p.text).isSome
  · rw [if_pos hfault]
    constructor
    · intro h
      cases h
    · rintro ⟨hnone, -⟩
      rw [hnone] at hfault
      cases hfault
  · rw [if_neg hfault]
    have hnone : PathFault.ofText? p.text = none := by simpa using hfault
    cases hl : fs.locate ending p with
    | ok place => simp [hnone]
    | error e => cases e <;> simp

/-- A path is that of a directory when it leads to one. -/
theorem isDirectory_eq_true_iff {p : Path} :
    fs.isDirectory p = .ok true ↔
      PathFault.ofText? p.text = none ∧
        ∃ place, fs.locate .follow p = .ok place ∧ fs.get? place = some .directory := by
  rw [← status_eq_some_iff]
  unfold isDirectory
  cases fs.status .follow p with
  | error e => simp [Except.map]
  | ok entry => simp [Except.map]

/-- Whether a path leads to a regular file. -/
def HasFile (fs : FileSystem) (p : Path) : Prop :=
  ∃ content executable, fs.status .follow p = .ok (some (.file content executable))

/-- A look says that a path is that of a file when it leads to a regular one. -/
theorem isFile_eq_true_iff {p : Path} : fs.isFile p = .ok true ↔ fs.HasFile p := by
  unfold HasFile isFile
  cases fs.status .follow p with
  | error e => simp [Except.map]
  | ok found =>
    rcases found with _ | ⟨content, executable⟩ | _ | target <;> simp [Except.map]

/-- A look says that a path is not that of a file when there is none where it leads. -/
theorem isFile_eq_false_iff {p : Path} :
    fs.isFile p = .ok false ↔ (∃ found, fs.status .follow p = .ok found) ∧ ¬fs.HasFile p := by
  unfold HasFile isFile
  cases fs.status .follow p with
  | error e => simp [Except.map]
  | ok found =>
    rcases found with _ | ⟨content, executable⟩ | _ | target <;> simp [Except.map]

/-- Whether a path is that of a file cannot be told where the look at it fails. -/
theorem isFile_eq_error_iff {p : Path} {e : SystemError} :
    fs.isFile p = .error e ↔ fs.status .follow p = .error e := by
  unfold isFile
  cases fs.status .follow p <;> simp [Except.map]

/-- A path exists when it leads to something. -/
theorem pathExists_eq_true_iff {p : Path} :
    fs.pathExists p = .ok true ↔ ∃ entry, fs.status .follow p = .ok (some entry) := by
  unfold pathExists
  cases fs.status .follow p with
  | error e => simp [Except.map]
  | ok entry => cases entry <;> simp [Except.map]

/-- What is done where an operation fails with an error of the operating system. -/
theorem run_orElse {α : Type} (work : FileAction α) (other : SystemError → FileAction α)
    (fs : FileSystem) :
    (orElse work other).run fs =
      match work.run fs with
      | (.ok a, t) => (.ok a, t)
      | (.error (.system e), t) => (other e).run t
      | (.error failure, t) => (.error failure, t) := by
  rw [orElse, run_tryCatch]
  rcases work.run fs with ⟨⟨e | fault⟩ | a, t⟩ <;> rfl

/-- A text that is a path passes, and nothing changes. -/
theorem run_requirePath (s : String) (fs : FileSystem) :
    (requirePath s).run fs =
      match PathFault.ofText? s with
      | some fault => (.error (.unnameable fault), fs)
      | none => (.ok (), fs) := by
  unfold requirePath
  cases PathFault.ofText? s <;> rfl

/-- A path is followed, and nothing changes. -/
theorem run_locateM (p : Path) (fs : FileSystem) :
    (locateM ending p).run fs =
      match PathFault.ofText? p.text, fs.locate ending p with
      | some fault, _ => (.error (.unnameable fault), fs)
      | none, .ok place => (.ok place, fs)
      | none, .error e => (.error (.system (.on e p)), fs) := by
  rw [locateM, run_bind, run_requirePath]
  cases PathFault.ofText? p.text with
  | some fault => rfl
  | none =>
    dsimp only
    rw [run_bind, run_get]
    dsimp only
    cases fs.locate ending p <;> rfl

/-- A path that could be followed is one, and leads where it was followed to. -/
theorem run_locateM_ok_iff {p : Path} {place : Location} :
    (locateM ending p).run fs = (.ok place, t) ↔
      PathFault.ofText? p.text = none ∧ fs.locate ending p = .ok place ∧ t = fs := by
  rw [run_locateM]
  cases PathFault.ofText? p.text with
  | some fault => simp
  | none =>
    cases fs.locate ending p with
    | ok other => simp [eq_comm]
    | error e => simp

/-! ## Invariants of operations -/

section Invariants

variable {α β : Type} {I : FileSystem → Prop}

/-- Whether what holds of a tree still holds after an operation, however it ends. -/
def Preserves (I : FileSystem → Prop) (work : FileAction α) : Prop :=
  ∀ fs, I fs → I (work.run fs).2

/-- What is preserved holds of the tree that an operation leaves. -/
theorem Preserves.of_run {work : FileAction α} (hw : Preserves I work) {result : Except FileFailure α} (h : I fs)
    (hrun : work.run fs = (result, t)) : I t := by
  have hkept := hw fs h
  rwa [hrun] at hkept

/-- To give a value changes nothing. -/
theorem preserves_pure (a : α) : Preserves I (pure a : FileAction α) :=
  fun _ h => h

/-- To fail changes nothing. -/
theorem preserves_failWith (e : SystemError) : Preserves I (failWith e : FileAction α) :=
  fun _ h => h

/-- To look changes nothing. -/
theorem preserves_look (view : FileSystem → Except SystemError α) : Preserves I (look view) := by
  intro fs h
  rw [run_look]
  exact h

/-- A sequence preserves what its parts preserve. -/
theorem Preserves.bind {x : FileAction α} {f : α → FileAction β} (hx : Preserves I x)
    (hf : ∀ a, Preserves I (f a)) : Preserves I (x >>= f) := by
  intro fs h
  rw [run_bind]
  rcases hrun : x.run fs with ⟨failure | a, t⟩
  · exact hx.of_run h hrun
  · exact hf a t (hx.of_run h hrun)

/-- An alternative preserves what both ways preserve. -/
theorem Preserves.orElse {x : FileAction α} {other : SystemError → FileAction α} (hx : Preserves I x)
    (ho : ∀ e, Preserves I (other e)) : Preserves I (FileSystem.orElse x other) := by
  intro fs h
  rw [run_orElse]
  rcases hrun : x.run fs with ⟨⟨e | fault⟩ | a, t⟩
  · exact ho e t (hx.of_run h hrun)
  · exact hx.of_run h hrun
  · exact hx.of_run h hrun

/-- To make a directory unless it is there preserves what making it preserves. -/
theorem Preserves.makeDirectoryIfMissing {p : Path} (h : Preserves I (makeDirectory p)) :
    Preserves I (makeDirectoryIfMissing p) := by
  refine h.orElse fun e => ?_
  split
  · exact preserves_failWith e
  · refine (preserves_look _).bind fun there => ?_
    split
    · exact preserves_pure ()
    · exact preserves_failWith e

/-- To make a directory with those on the way to it preserves what making each of them preserves. -/
theorem Preserves.makeDirectories {p : Path}
    (h : ∀ names, names <+: p.names → Preserves I (makeDirectory ⟨p.anchor, names⟩)) :
    Preserves I (makeDirectories p) := by
  induction p using Path.parent_induction with
  | step p ih =>
    rw [FileSystem.makeDirectories]
    have hlast : Preserves I (FileSystem.makeDirectoryIfMissing p) :=
      Preserves.makeDirectoryIfMissing (h p.names (List.prefix_refl _))
    refine hlast.orElse fun e => ?_
    split
    · next hmissing =>
      refine (ih hmissing.2 fun names hn => ?_).bind fun _ => hlast
      exact h names (hn.trans (List.dropLast_prefix _))
    · exact preserves_failWith e

end Invariants

/-! ## Making one directory -/

/-- Making a directory puts one where the path leads, if nothing stands there. -/
theorem run_makeDirectoryAt (s : String) (fs : FileSystem) :
    (makeDirectoryAt s).run fs =
      match PathFault.ofText? s, fs.locateText .keep s with
      | some fault, _ => (.error (.unnameable fault), fs)
      | none, .error e => (.error (.system (.about e s)), fs)
      | none, .ok place =>
        if (fs.get? place).isSome then (.error (.system (.about .alreadyExists s)), fs)
        else (.ok (), fs.put place .directory) := by
  rw [makeDirectoryAt, run_bind, run_requirePath]
  cases PathFault.ofText? s with
  | some fault => rfl
  | none =>
    dsimp only
    rw [run_bind, run_get]
    dsimp only
    cases fs.locateText .keep s with
    | error e => rfl
    | ok place =>
      dsimp only
      split <;> rfl

/-- A directory was made when nothing stood where the path leads. -/
theorem run_makeDirectoryAt_ok_iff {s : String} :
    (makeDirectoryAt s).run fs = (.ok (), t) ↔
      PathFault.ofText? s = none ∧
        ∃ place, fs.locateText .keep s = .ok place ∧ fs.get? place = none ∧
          t = fs.put place .directory := by
  rw [run_makeDirectoryAt]
  cases PathFault.ofText? s with
  | some fault => simp
  | none =>
    cases fs.locateText .keep s with
    | error e => simp
    | ok place =>
      by_cases hsome : (fs.get? place).isSome
      · simp [hsome, Option.isSome_iff_ne_none.1 hsome]
      · simp [Option.not_isSome_iff_eq_none.1 hsome, eq_comm]

/-- A directory that could not be made leaves the tree as it was. -/
theorem run_makeDirectoryAt_error {s : String} {failure : FileFailure}
    (h : (makeDirectoryAt s).run fs = (.error failure, t)) : t = fs := by
  rw [run_makeDirectoryAt] at h
  split at h
  · cases h; rfl
  · cases h; rfl
  · split at h <;> cases h
    rfl

/-- A directory is there after it was asked for only when it was missing: it was made, or was there. -/
theorem run_makeDirectoryIfMissing_ok_iff {p : Path} :
    (makeDirectoryIfMissing p).run fs = (.ok (), t) ↔
      (makeDirectory p).run fs = (.ok (), t) ∨
        (∃ e, (makeDirectory p).run fs = (.error (.system e), fs) ∧ e.isNotFound = false) ∧
          fs.isDirectory p = .ok true ∧ t = fs := by
  rw [makeDirectoryIfMissing, run_orElse]
  rcases hmade : (makeDirectory p).run fs with ⟨⟨e | fault⟩ | a, t'⟩
  · obtain rfl : t' = fs := run_makeDirectoryAt_error hmade
    by_cases hmissing : e.isNotFound
    · simp [hmissing, failWith]
    · simp only [hmissing, Bool.false_eq_true, if_false]
      rw [run_bind, run_look]
      cases hd : t'.isDirectory p with
      | error e' => simp [Except.mapError]
      | ok there =>
        cases there with
        | false => simp [Except.mapError, failWith]
        | true =>
          simp only [Except.mapError, if_true, run_pure, outcome_eq_iff, true_and]
          constructor
          · rintro rfl
            exact .inr ⟨⟨e, ⟨rfl, trivial⟩, by simpa using hmissing⟩, rfl⟩
          · rintro (h | h)
            · cases h.1
            · exact h.2.symm
  · simp
  · simp

/-- A directory that is not there after it was asked for leaves the tree as it was. -/
theorem run_makeDirectoryIfMissing_error {p : Path} {failure : FileFailure}
    (h : (makeDirectoryIfMissing p).run fs = (.error failure, t)) : t = fs := by
  rw [makeDirectoryIfMissing, run_orElse] at h
  rcases hmade : (makeDirectory p).run fs with ⟨⟨e | fault⟩ | a, t'⟩
  · obtain rfl : t' = fs := run_makeDirectoryAt_error hmade
    rw [hmade] at h
    dsimp only at h
    by_cases hmissing : e.isNotFound
    · rw [if_pos hmissing] at h
      cases h
      rfl
    · rw [if_neg hmissing, run_bind, run_look] at h
      cases hd : t'.isDirectory p with
      | error e' =>
        rw [hd] at h
        cases h
        rfl
      | ok there =>
        rw [hd] at h
        cases there <;> cases h
        rfl
  · obtain rfl : t' = fs := run_makeDirectoryAt_error hmade
    rw [hmade] at h
    cases h
    rfl
  · rw [hmade] at h
    cases h

/-- A path along which a directory was made leads to that directory, whether or not a link at its end is
kept. -/
theorem locate_put_directory {p : Path} {place : Location} (hl : fs.locate .keep p = .ok place)
    (hfree : fs.get? place = none) :
    (fs.put place .directory).locate .keep p = .ok place ∧
      (fs.put place .directory).locate .follow p = .ok place ∧
      (fs.put place .directory).get? place = some .directory := by
  have hput : ∀ l, (fs.put place .directory).get? l =
      if place = l then some .directory else fs.get? l :=
    fun l => get?_put _ l (not_isNameless_of_get?_none hfree)
  have hthere : (fs.put place .directory).get? place = some .directory := by rw [hput, if_pos rfl]
  have hcarries : Carries fs (fs.put place .directory) := by
    intro l entry he
    refine ⟨entry, ?_, by cases entry <;> simp [Alike]⟩
    rw [hput, if_neg]
    · exact he
    · rintro rfl
      rw [hfree] at he
      cases he
  have hkeep : (fs.put place .directory).locate .keep p = .ok place := by
    refine locate_carried hl hcarries rfl fun _ text htext => ?_
    rw [hthere] at htext
    cases htext
  obtain ⟨hsize, links, hlinks, hlead⟩ := locate_eq_ok_iff.1 hkeep
  refine ⟨hkeep, locate_eq_ok_iff.2 ⟨hsize, links, hlinks, hlead.follow fun text htext => ?_⟩, hthere⟩
  rw [hthere] at htext
  cases htext

/-! ## Making directories on the way -/

/-- Whether a tree is another with some new directories in it. -/
structure Grown (fs t : FileSystem) : Prop where
  /-- What stood somewhere still does. -/
  kept : ∀ {location entry}, fs.get? location = some entry → t.get? location = some entry
  /-- What is new is a directory. -/
  new : ∀ {location entry}, fs.get? location = none → t.get? location = some entry →
    entry = .directory
  /-- The working directory is the same. -/
  working : t.workingDirectory = fs.workingDirectory
  /-- The same file is held open. -/
  held : t.held = fs.held
  /-- A sound tree stays sound. -/
  sound : fs.Sound → t.Sound

/-- A tree has grown by nothing. -/
theorem Grown.refl (fs : FileSystem) : Grown fs fs := by
  refine ⟨id, fun hn hs => ?_, rfl, rfl, id⟩
  rw [hn] at hs
  cases hs

/-- What has grown twice has grown. -/
theorem Grown.trans {u : FileSystem} (h : Grown fs t) (ht : Grown t u) : Grown fs u := by
  refine ⟨fun he => ht.kept (h.kept he), ?_, ht.working.trans h.working, ht.held.trans h.held,
    fun hs => ht.sound (h.sound hs)⟩
  intro location entry hn hs
  cases hm : t.get? location with
  | none => exact ht.new hm hs
  | some other =>
    obtain rfl := h.new hn hm
    have hkept := ht.kept hm
    rw [hs] at hkept
    exact Option.some.inj hkept

/-- What has grown carries what it has grown from. -/
theorem Grown.carries (h : Grown fs t) : Carries fs t := by
  intro location entry he
  obtain ⟨other, ho, ha⟩ := Carries.refl fs he
  rw [he] at ho
  cases ho
  exact ⟨entry, h.kept he, ha⟩

/-- A path that leads to a location with a name leads to a proper one, which is in a directory. -/
theorem Sound.named_place (hs : fs.Sound) {p : Path} (hp : p.Written) {place : Location}
    (hl : fs.locate ending p = .ok place) (hname : ¬isNameless place) :
    Proper place ∧ Short place ∧ place ≠ [] ∧ fs.get? place.dropLast = some .directory := by
  cases hs.arrival hp hl with
  | rooted hr =>
    obtain ⟨hproper, hshort⟩ := hr.proper hs (by simp [isGone, hname])
    refine ⟨hproper, hshort, ?_, hr (List.dropLast_prefix _)⟩
    rintro rfl
    exact hname rfl
  | @named base name hr hg hn hup hshort =>
    obtain ⟨hproper, hlength⟩ := hr.proper hs hg
    refine ⟨hproper.append fun n hmem => ?_, fun n hmem => ?_, by simp, ?_⟩
    · rw [List.mem_singleton.1 hmem]
      exact ⟨hn, hup⟩
    · rcases List.mem_append.1 hmem with hmem | hmem
      · exact hlength n hmem
      · rwa [List.mem_singleton.1 hmem]
    · rw [List.dropLast_concat]
      exact hr (List.prefix_refl base)

/-- Where a path leads to nothing, a directory stands above, and a new entry would be proper. -/
theorem Sound.free_place (hs : fs.Sound) {p : Path} (hp : p.Written) {place : Location}
    (hl : fs.locate ending p = .ok place) (hd : fs.get? place ≠ some .directory) :
    Proper place ∧ Short place ∧ place ≠ [] ∧ fs.get? place.dropLast = some .directory :=
  hs.named_place hp hl (not_isNameless_of_get?_ne hd)

/-- A directory put where a path leads to nothing makes a tree grow. -/
theorem Sound.grown_put (hs : fs.Sound) {p : Path} (hp : p.Written) {place : Location}
    (hl : fs.locate ending p = .ok place) (hn : fs.get? place = none) :
    Grown fs (fs.put place .directory) := by
  obtain ⟨hproper, hshort, hne, hparent⟩ := hs.free_place hp hl (by simp [hn])
  have hname : ¬isNameless place := hproper.not_isNameless hne
  constructor
  · intro location entry he
    rw [get?_put _ _ hname, if_neg, he]
    rintro rfl
    rw [hn] at he
    cases he
  · intro location entry hnone he
    rw [get?_put _ _ hname] at he
    split at he
    · exact (Option.some.inj he).symm
    · rw [hnone] at he
      cases he
  · rfl
  · rfl
  · intro _
    refine hs.put hproper hshort hne hparent (fun _ => rfl) fun hheld => ?_
    obtain ⟨c, x, hfile⟩ := hs.held hheld
    rw [hn] at hfile
    cases hfile

/-- A directory that was made stands where the path leads, and the path leads there from now on. -/
theorem run_makeDirectory_ok (hs : fs.Sound) {p : Path} (hp : p.Written)
    (h : (makeDirectory p).run fs = (.ok (), t)) :
    ∃ place, fs.locate .keep p = .ok place ∧ fs.get? place = none ∧ t = fs.put place .directory ∧
      Grown fs t ∧ t.isDirectory p = .ok true := by
  obtain ⟨hfault, place, hl, hn, rfl⟩ := run_makeDirectoryAt_ok_iff.1 h
  rw [locateText_text fs _ hp] at hl
  have hgrown : Grown fs (fs.put place .directory) := hs.grown_put hp hl hn
  have hput : (fs.put place .directory).get? place = some .directory := by
    rw [get?_put _ _ (not_isNameless_of_get?_none hn), if_pos rfl]
  obtain ⟨hsize, links, hlinks, hlead⟩ := locate_eq_ok_iff.1 hl
  have hfollow : fs.Leads .follow links (fs.startOf p) p.names place := hlead.follow (by simp [hn])
  have hthere : (fs.put place .directory).locate .follow p = .ok place :=
    locate_eq_ok_iff.2 ⟨hsize, links, hlinks, hfollow.carried hgrown.carries fun _ => by simp [hput]⟩
  exact ⟨place, hl, hn, rfl, hgrown, isDirectory_eq_true_iff.2 ⟨hfault, place, hthere, hput⟩⟩

/-- A directory that was made if it was missing is there. -/
theorem run_makeDirectoryIfMissing_ok (hs : fs.Sound) {p : Path} (hp : p.Written)
    (h : (makeDirectoryIfMissing p).run fs = (.ok (), t)) :
    Grown fs t ∧ t.isDirectory p = .ok true := by
  rcases run_makeDirectoryIfMissing_ok_iff.1 h with hmade | ⟨-, hd, rfl⟩
  · obtain ⟨-, -, -, -, hgrown, hd⟩ := run_makeDirectory_ok hs hp hmade
    exact ⟨hgrown, hd⟩
  · exact ⟨Grown.refl _, hd⟩

/-- Directories were made on the way when the last of them was there or could be made, if need be after
those above it. -/
theorem run_makeDirectories_ok_cases {p : Path} (h : (makeDirectories p).run fs = (.ok (), t)) :
    (makeDirectoryIfMissing p).run fs = (.ok (), t) ∨
      p.names ≠ [] ∧ ∃ u, (makeDirectories p.parent).run fs = (.ok (), u) ∧
        (makeDirectoryIfMissing p).run u = (.ok (), t) := by
  rw [makeDirectories, run_orElse] at h
  rcases hfirst : (makeDirectoryIfMissing p).run fs with ⟨⟨e | fault⟩ | a, t'⟩
  · rw [hfirst] at h
    obtain rfl := run_makeDirectoryIfMissing_error hfirst
    dsimp only at h
    split at h
    · next hmissing =>
      obtain ⟨⟨⟩, u, hup, hlast⟩ := exists_of_run_bind_ok h
      exact .inr ⟨hmissing.2, u, hup, hlast⟩
    · cases h
  · rw [hfirst] at h
    cases h
  · rw [hfirst] at h
    cases h
    exact .inl rfl

/-- Directories made on the way make a tree grow, and the path leads to a directory then. -/
theorem run_makeDirectories_ok (hs : fs.Sound) {p : Path} (hp : p.Written)
    (h : (makeDirectories p).run fs = (.ok (), t)) : Grown fs t ∧ t.isDirectory p = .ok true := by
  induction p using Path.parent_induction generalizing fs t with
  | step p ih =>
    rcases run_makeDirectories_ok_cases h with h | ⟨hne, u, hup, hlast⟩
    · exact run_makeDirectoryIfMissing_ok hs hp h
    · obtain ⟨hgrown, -⟩ := ih hne hs hp.parent hup
      obtain ⟨hgrown', hd⟩ := run_makeDirectoryIfMissing_ok (hgrown.sound hs) hp hlast
      exact ⟨hgrown.trans hgrown', hd⟩

/-- Where directories could not be made on the way, those above one of them were. -/
theorem run_makeDirectories_error {p : Path} {failure : FileFailure}
    (h : (makeDirectories p).run fs = (.error failure, t)) :
    t = fs ∨ ∃ names, names <+: p.names ∧
      (makeDirectories ⟨p.anchor, names⟩).run fs = (.ok (), t) := by
  induction p using Path.parent_induction generalizing failure with
  | step p ih =>
    have hdrop : p.parent.names <+: p.names := List.dropLast_prefix p.names
    rw [makeDirectories, run_orElse] at h
    -- what fails here is the last directory, so the tree is the one before it was tried
    rcases hfirst : (makeDirectoryIfMissing p).run fs with ⟨⟨e | fault⟩ | a, t'⟩
    · obtain rfl := run_makeDirectoryIfMissing_error hfirst
      rw [hfirst] at h
      dsimp only at h
      split at h
      · next hmissing =>
        rw [run_bind] at h
        rcases hup : (makeDirectories p.parent).run t' with ⟨failure' | ⟨⟩, u⟩
        · rw [hup] at h
          cases h
          rcases ih hmissing.2 hup with rfl | ⟨names, hnames, hmade⟩
          · exact .inl rfl
          · exact .inr ⟨names, hnames.trans hdrop, hmade⟩
        · rw [hup] at h
          obtain rfl := run_makeDirectoryIfMissing_error h
          exact .inr ⟨p.parent.names, hdrop, hup⟩
      · cases h
        exact .inl rfl
    · obtain rfl := run_makeDirectoryIfMissing_error hfirst
      rw [hfirst] at h
      cases h
      exact .inl rfl
    · rw [hfirst] at h
      cases h

/-- Whether or not directories can be made on the way, no more than new directories come of it. -/
theorem grown_makeDirectories (hs : fs.Sound) {p : Path} (hp : p.Written)
    {result : Except FileFailure Unit} (h : (makeDirectories p).run fs = (result, t)) : Grown fs t := by
  cases result with
  | ok a => exact (run_makeDirectories_ok hs hp h).1
  | error failure =>
    rcases run_makeDirectories_error h with rfl | ⟨names, hnames, hmade⟩
    · exact Grown.refl _
    · exact (run_makeDirectories_ok hs (fun name hname => hp name (hnames.subset hname)) hmade).1

/-- What has grown has the links that it had. -/
theorem Grown.link_iff (h : Grown fs t) {location : Location} {target : String} :
    t.get? location = some (.link target) ↔ fs.get? location = some (.link target) := by
  refine ⟨fun hlink => ?_, h.kept⟩
  cases hentry : fs.get? location with
  | none => cases h.new hentry hlink
  | some entry => rw [← hlink, h.kept hentry]

/-- What has grown has no more links. -/
theorem Grown.linkFree (h : Grown fs t) {here : Location} {names : List String}
    (hl : fs.LinkFree here names) : t.LinkFree here names :=
  fun ht hne target hlink => hl ht hne target (h.link_iff.1 hlink)

/-- What has grown has links where it has grown from has them. -/
theorem Grown.unlinked_iff (h : Grown fs t) {top : Location} : t.Unlinked top ↔ fs.Unlinked top := by
  simp only [Unlinked, ne_eq, h.link_iff]

/-- On a path from the root without links, no directories are made but above its end and there. -/
theorem run_makeDirectories_elsewhere (hs : fs.Sound) {names : Location} (hp : Proper names)
    (hl : fs.LinkFree [] names) (h : (makeDirectories (.fromRoot names)).run fs = (.ok (), t))
    {location : Location} (hn : ¬location <+: names) : t.get? location = fs.get? location := by
  have hlast : ∀ {l : Location} {u v : FileSystem}, Proper l → u.Sound → u.LinkFree [] l →
      ¬location <+: l → (makeDirectoryIfMissing (.fromRoot l)).run u = (.ok (), v) →
      v.get? location = u.get? location := by
    intro l u v hpl hu hfree hnot hrun
    rcases run_makeDirectoryIfMissing_ok_iff.1 hrun with hmade | ⟨-, -, rfl⟩
    · obtain ⟨place, hplace, hnone, rfl, -, -⟩ := run_makeDirectory_ok hu hpl.written hmade
      obtain ⟨rfl, -⟩ := locate_fromRoot_inv hplace hpl hfree
      rw [get?_put _ _ (not_isNameless_of_get?_none hnone), if_neg]
      rintro rfl
      exact hnot (List.prefix_refl _)
    · rfl
  -- on the names from the end, as the directories are made; what was made so far has no new links
  induction names using List.reverseRecOn generalizing fs t with
  | nil =>
    rcases run_makeDirectories_ok_cases h with h | ⟨hne, -⟩
    · exact hlast hp hs hl hn h
    · exact absurd rfl hne
  | append_singleton names name ih =>
    rcases run_makeDirectories_ok_cases h with h | ⟨-, u, hup, hend⟩
    · exact hlast hp hs hl hn h
    · have hdrop : names <+: names ++ [name] := List.prefix_append names [name]
      have hparent : Proper names := hp.of_isPrefix hdrop
      have hup' : (makeDirectories (.fromRoot names)).run fs = (.ok (), u) := by
        rw [← hup]
        simp [Path.parent, Path.fromRoot]
      obtain ⟨hgrown, -⟩ := run_makeDirectories_ok hs hparent.written hup'
      rw [hlast hp (hgrown.sound hs) (hgrown.linkFree hl) hn hend]
      exact ih hs hparent (fun ht => hl (ht.trans hdrop)) hup' fun ht => hn (ht.trans hdrop)

/-- On a path from the root without links, whether or not directories can be made, none are but above its end
and there. -/
theorem elsewhere_makeDirectories (hs : fs.Sound) {names : Location} (hp : Proper names)
    (hl : fs.LinkFree [] names) {result : Except FileFailure Unit}
    (h : (makeDirectories (.fromRoot names)).run fs = (result, t)) {location : Location}
    (hn : ¬location <+: names) : t.get? location = fs.get? location := by
  cases result with
  | ok a => exact run_makeDirectories_elsewhere hs hp hl h hn
  | error failure =>
    rcases run_makeDirectories_error h with rfl | ⟨top, htop, hmade⟩
    · rfl
    · exact run_makeDirectories_elsewhere hs (hp.of_isPrefix htop) (fun ho => hl (ho.trans htop)) hmade
        fun ho => hn (ho.trans htop)

/-- On a path from the root without links, exactly the directories that were missing are made. -/
theorem run_makeDirectories_fromRoot_ok (hs : fs.Sound) {names : Location} (hp : Proper names)
    (hl : fs.LinkFree [] names) (h : (makeDirectories (.fromRoot names)).run fs = (.ok (), t))
    (location : Location) :
    t.get? location = if location <+: names then some .directory else fs.get? location := by
  obtain ⟨hgrown, hd⟩ := run_makeDirectories_ok hs hp.written h
  obtain ⟨-, place, hplace, hdir⟩ := isDirectory_eq_true_iff.1 hd
  obtain ⟨rfl, habove⟩ := locate_fromRoot_inv hplace hp (hgrown.linkFree hl)
  split
  · next hpre =>
    by_cases he : location = place
    · rw [he, hdir]
    · exact habove location hpre he
  · next hnot => exact run_makeDirectories_elsewhere hs hp hl h hnot

/-- A directory that is there already need not be made. -/
theorem run_makeDirectories_of_directory {p : Path} (hp : p.Written)
    (hd : fs.isDirectory p = .ok true) : (makeDirectories p).run fs = (.ok (), fs) := by
  obtain ⟨hfault, place, hplace, hdir⟩ := isDirectory_eq_true_iff.1 hd
  obtain ⟨other, hkeep, hsome⟩ := locate_keep hplace (by simp [hdir])
  have hmade : (makeDirectory p).run fs = (.error (.system (.about .alreadyExists p.text)), fs) := by
    rw [makeDirectory, run_makeDirectoryAt, hfault, locateText_text fs _ hp, hkeep]
    dsimp only
    rw [if_pos hsome]
  have hmissing : (makeDirectoryIfMissing p).run fs = (.ok (), fs) :=
    run_makeDirectoryIfMissing_ok_iff.2 (.inr ⟨⟨_, hmade, rfl⟩, hd, rfl⟩)
  rw [makeDirectories, run_orElse, hmissing]

/-! ## Writing files -/

/-- Whether what was found is a file that may be run. -/
def isExecutable (found : Option Entry) : Bool :=
  match found with
  | some (.file _ executable) => executable
  | _ => false

/-- A text was written where the path leads, if no directory stands there. -/
theorem run_writeText_ok_iff {p : Path} {s : String} :
    (writeText p s).run fs = (.ok (), t) ↔
      PathFault.ofText? p.text = none ∧
        ∃ place, fs.locate .write p = .ok place ∧ fs.get? place ≠ some .directory ∧
          t = fs.put place (.file (.text s) (isExecutable (fs.get? place))) := by
  rw [writeText, run_bind, run_locateM]
  cases PathFault.ofText? p.text with
  | some fault => simp
  | none =>
    cases fs.locate .write p with
    | error e => simp
    | ok place =>
      dsimp only
      rw [run_bind, run_get]
      dsimp only
      cases hentry : fs.get? place with
      | none => simp [hentry, isExecutable, eq_comm]
      | some entry =>
        cases entry with
        | file content executable => simp [hentry, isExecutable, eq_comm]
        | directory => simp [hentry, fail, failWith]
        | link target => simp [hentry, isExecutable, eq_comm]

/-- A text that could not be written leaves the tree as it was. -/
theorem run_writeText_error {p : Path} {s : String} {failure : FileFailure}
    (h : (writeText p s).run fs = (.error failure, t)) : t = fs := by
  rw [writeText, run_bind, run_locateM] at h
  cases hfault : PathFault.ofText? p.text with
  | some fault =>
    rw [hfault] at h
    cases h
    rfl
  | none =>
    rw [hfault] at h
    cases hl : fs.locate .write p with
    | error e =>
      rw [hl] at h
      cases h
      rfl
    | ok place =>
      rw [hl] at h
      dsimp only at h
      rw [run_bind, run_get] at h
      dsimp only at h
      split at h
      · cases h
        rfl
      · cases h
      · cases h

end ProviderBindings.FileSystem
