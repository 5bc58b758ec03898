import ProviderBindings.Proofs.Sites
import ProviderBindings.Proofs.Turns

/-!
# Work in a staging directory

What the steps of a turn come to in a staging directory, whatever the tools do below it. Saving the code and
writing the manifest change nothing but what is below the directory, and neither do the tools
(`Dispatch.Confined`). The harvest disturbs the place of the source alone when there are no links where
packages are made (`Dispatch.LeavesNoLink`), and the staging root and the directory are where they were
(`Site.Desk.Busy.of_disturbed`). So the directory is in use until it is removed.
-/

namespace ProviderBindings

open FileSystem

/-- Whether a tool changed nothing but what is below a directory. The log file may have been added to. -/
structure Dispatch.Confined (c : Dispatch) (work : Location) : Prop where
  /-- The tree is sound. -/
  sound : c.after.files.Sound
  /-- What is not below the directory is as it was, if it is not the log file. -/
  kept : ∀ {location}, ¬Below work location → c.before.files.held ≠ some location →
    c.after.files.get? location = c.before.files.get? location
  /-- A log file that is not below the directory is still a file. -/
  log : ∀ {location}, ¬Below work location → c.before.files.held = some location →
    c.after.files.shapeAt location = c.before.files.shapeAt location
  /-- The working directory of the host is the same. -/
  working : c.after.files.workingDirectory = c.before.files.workingDirectory
  /-- The same file is held open. -/
  held : c.after.files.held = c.before.files.held
  /-- No staging directory was made. -/
  staged : c.after.staged = c.before.staged
  /-- Temporary files go where they went. -/
  temporary : c.after.temporary = c.before.temporary

/-- Whether a tool changed nothing but what is below the directory it was to work in. -/
def Dispatch.Contained (c : Dispatch) : Prop :=
  ∀ work, c.before.files.locate .follow (.ofString c.context.workingDirectory) = .ok work →
    c.Confined work

/-- What is not below the directory was not touched by a tool that changed nothing else. -/
theorem Dispatch.Confined.untouched {c : Dispatch} {work : Location} (h : c.Confined work) :
    Untouched (¬Below work ·) c.before.files c.after.files := by
  refine ⟨fun hl hheld => h.kept hl hheld, fun {location} hl => ?_, fun hl => by rwa [h.held] at hl⟩
  by_cases hlog : c.before.files.held = some location
  · exact h.log hl hlog
  · unfold shapeAt
    rw [h.kept hl hlog]

/-- Whether a tool left no link where packages are made, nor below. -/
def Dispatch.LeavesNoLink (c : Dispatch) : Prop :=
  ∀ work, c.before.files.locate .follow (.ofString c.context.workingDirectory) = .ok work →
    ∀ rest target, c.after.files.get? (work ++ "dist" :: rest) ≠ some (.link target)

/-- Whether tools that were asked to act changed nothing but what is below the directories they were to work in,
and the packager left no links where packages are made. -/
structure Dispatch.Neat (ds : List Dispatch) : Prop where
  /-- Each tool changed nothing but what is below the directory that it was to work in. -/
  contained : ∀ c ∈ ds, c.Contained
  /-- The packager left no links where packages are made. -/
  unlinked : ∀ c ∈ ds, c.context.action.adapter = CommandKind.packager.command → c.LeavesNoLink

/-- Among the first of dispatches that are neat none is not. -/
theorem Dispatch.Neat.left {ds es : List Dispatch} (h : Dispatch.Neat (ds ++ es)) : Dispatch.Neat ds :=
  ⟨fun c hc => h.contained c (List.mem_append_left es hc), fun c hc => h.unlinked c (List.mem_append_left es hc)⟩

/-- Nor among the last. -/
theorem Dispatch.Neat.right {ds es : List Dispatch} (h : Dispatch.Neat (ds ++ es)) : Dispatch.Neat es :=
  ⟨fun c hc => h.contained c (List.mem_append_right ds hc), fun c hc => h.unlinked c (List.mem_append_right ds hc)⟩

/-- A place that the harvest for a source spares: it is neither at nor below the place of the source, nor between
that and the output directory. -/
def Site.Spared (S : Site) (source : String) (location : Location) : Prop :=
  ¬S.output ++ placeOf source <+: location ∧
    (location <+: S.output ++ placeOf source → location <+: S.output)

/-- Every harvest spares what is not at or below the output directory. -/
theorem Site.spared_of_not_isPrefix {S : Site} {location : Location} (h : ¬S.output <+: location)
    (source : String) : S.Spared source location := by
  refine ⟨fun hp => h ((List.prefix_append _ _).trans hp), fun hp => ?_⟩
  exact (List.prefix_or_prefix_of_prefix hp (List.prefix_append _ _)).resolve_right h

namespace Site.Desk

variable {S : Site} {d : S.Desk} {fs t : FileSystem}

/-- A tool that writes only below the directory leaves it in use. -/
theorem Busy.of_confined {c : Dispatch} (h : d.Busy c.before.files) (hc : c.Confined d.place) :
    d.Busy c.after.files := by
  have hbeside : Untouched (¬d.place <+: ·) c.before.files c.after.files :=
    hc.untouched.mono fun _ hl hb => hl hb.1
  refine h.of_same hc.sound (fun location hl => hbeside.shape hl) (.inr hc.working) ?_ hbeside.held
  rw [hc.kept (fun hb => hb.2 rfl), h.there]
  intro hlog
  exact h.log hlog (List.prefix_refl _)

/-- Where packages are made for a source. -/
def sourcePlace (source : String) : Location :=
  "dist" :: "python" :: "src" :: placeOf source

/-- The path of the package for a source leads on from the directory. -/
theorem sourcePath_eq (p : Path) {source : String} (h : Segmented source) :
    Harvester.sourcePath p (importName source) = ⟨p.anchor, p.names ++ sourcePlace source⟩ := by
  unfold Harvester.sourcePath sourcePlace
  rw [h.child_importName, Path.child_of_isName p (by decide), Path.child_of_isName _ (by decide),
    Path.child_of_isName _ (by decide)]
  simp

/-- The place of a package is proper. -/
theorem proper_sourcePlace {source : String} (h : Segmented source) : Proper (sourcePlace source) := by
  have hfront : Proper ["dist", "python", "src"] := by
    intro name hname
    revert name
    decide
  exact hfront.append h.proper_placeOf

/-- What stands on the site is still there when a place below the output directory was cleared and missing directories
were made. -/
theorem Busy.carries_grown (h : d.Busy fs) {u v : FileSystem} {place : Location} (hplace : Below S.output place)
    (hu : Removed place fs u) (hv : Grown u v) : Carries S.base v := by
  intro location entry he
  obtain ⟨other, hother, halike⟩ := h.kept.carries d.idle he
  by_cases hname : isNameless location
  · rw [get?_of_isNameless hname] at he ⊢
    cases he
    exact ⟨.directory, rfl, trivial⟩
  · have hout : ¬place <+: location := by
      intro hin
      rw [S.cleared (hplace.of_isPrefix hin) hname] at he
      cases he
    rw [← hu.kept hout] at hother
    exact ⟨other, hv.kept hother, halike⟩

/-- The path of the staging root leads to it when a place below the output directory was cleared and missing directories
were made. -/
theorem Busy.locate_path_grown (h : d.Busy fs) {u v : FileSystem} {place : Location} (hplace : Below S.output place)
    (hu : Removed place fs u) (hv : Grown u v) :
    v.locate .follow S.path = .ok S.root ∧ v.get? S.root = some .directory := by
  refine S.locate_path (h.carries_grown hplace hu hv) (h.kept.working.imp_right fun hw => hw.trans ?_)
  rw [hv.working]
  exact hu.shifted.mono (isPrefix_dropLast hplace.1 hplace.2.symm)

/-- The path of a package that is in the directory leads there, as long as nothing but the output directory
and what is missing changed. -/
theorem Busy.locate_source (h : d.Busy fs) {more : Location} (hp : Proper more) (hne : more ≠ [])
    (hthere : (fs.get? (d.place ++ more)).isSome)
    (hsize : (⟨d.path.anchor, d.path.names ++ more⟩ : Path).text.utf8ByteSize ≤ maxPathSize)
    {u v : FileSystem} {place : Location} (hplace : Below S.output place) (hu : Removed place fs u)
    (hv : Grown u v) :
    v.locate .keep ⟨d.path.anchor, d.path.names ++ more⟩ = .ok (d.place ++ more) := by
  obtain ⟨hroot, hrootThere⟩ := h.locate_path_grown hplace hu hv
  have hname : ¬isNameless (d.place ++ more) :=
    (d.proper_place.append hp).not_isNameless fun he => hne (List.append_eq_nil_iff.1 he).2
  have hshort : ∀ name ∈ d.name :: more, name.utf8ByteSize ≤ maxNameSize := by
    intro name hmem
    refine h.kept.sound.short hname hthere name ?_
    show name ∈ (S.root ++ [d.name]) ++ more
    rw [List.append_assoc]
    exact List.mem_append_right _ hmem
  have hall : Proper (d.name :: more) := d.proper.append hp
  -- the directories on the way to the package are not below the output directory
  have hdirs : ∀ top, top <+: d.name :: more → top ≠ d.name :: more → top ≠ [] →
      v.get? (S.root ++ top) = some .directory := by
    intro top ht hnt hnil
    rcases List.prefix_cons_iff.1 ht with rfl | ⟨rest, rfl, hrest⟩
    · exact absurd rfl hnil
    · have hbefore : fs.get? (d.place ++ rest) = some .directory := by
        refine h.kept.sound.directory_of_isPrefix hname hthere ?_ fun he => hnt ?_
        · exact (List.prefix_append_right_inj _).2 hrest
        · rw [List.append_cancel_left he]
      have hout : ¬place <+: d.place ++ rest := by
        intro hin
        exact not_prefix_append d.apart.1 d.apart.2 (hplace.1.trans hin)
      have hafter : v.get? (d.place ++ rest) = some .directory :=
        hv.kept (by rw [hu.kept hout, hbefore])
      rwa [show d.place ++ rest = S.root ++ d.name :: rest by simp [Desk.place]] at hafter
  have hresult := locate_append hroot hrootThere ?_
    S.rootProper.isGone_eq_false hall (by simp)
    hshort hdirs (fun _ _ => rfl : ∀ target, v.get? (S.root ++ d.name :: more) = some (.link target) →
      Ending.keep = .keep)
  · simpa [Desk.path, Desk.place] using hresult
  · simpa [Desk.path] using hsize

/-- The place of a source is below the output directory. -/
theorem below_placeOf (S : Site) {source : String} (h : Segmented source) :
    Below S.output (S.output ++ placeOf source) :=
  below_append h.placeOf_ne_nil

/-- A package in the directory and its place below the output directory are apart. -/
theorem apart_source (d : S.Desk) (source : String) :
    ¬d.place ++ sourcePlace source <+: S.output ++ placeOf source ∧
      ¬S.output ++ placeOf source <+: d.place ++ sourcePlace source :=
  ⟨fun hp => not_prefix_append d.apart.2 d.apart.1 ((List.prefix_append _ _).trans hp),
    fun hp => not_prefix_append d.apart.1 d.apart.2 ((List.prefix_append _ _).trans hp)⟩

/-- Directories lead to the output directory while the directory is in use. -/
theorem Busy.directory_of_isPrefix (h : d.Busy fs) {location : Location} (hl : location <+: S.output) :
    fs.get? location = some .directory := by
  have hshape := h.kept.same location fun hz =>
    hz.elim (fun hb => hb.2 (hl.eq_of_length_le hb.1.length_le)) (d.idle.apart (.inl hl))
  rw [← shapeAt_eq_directory, hshape, shapeAt_eq_directory]
  exact S.sound.rooted S.outputThere S.outputProper hl

/-- What is not in the directory is not in a package there. -/
theorem not_sourcePlace_isPrefix {source : String} {location : Location} (hl : ¬d.place <+: location) :
    ¬d.place ++ sourcePlace source <+: location :=
  fun hp => hl ((List.prefix_append _ _).trans hp)

/-- The log file is none that appeared when a package was to be moved. -/
theorem Busy.held_of_disturbed (h : d.Busy fs) {source : String}
    (ht : Harvester.Disturbed (d.place ++ sourcePlace source) (S.output ++ placeOf source) fs t)
    {location : Location} (hl : t.held = some location) : fs.held = some location :=
  ht.held (fun _ hl => not_sourcePlace_isPrefix (h.log hl)) hl

/-- When a package was to be moved from the directory to its place below the output directory, the places that the
harvest spares were not touched. -/
theorem Busy.spared_of_disturbed (h : d.Busy fs) {source : String}
    (ht : Harvester.Disturbed (d.place ++ sourcePlace source) (S.output ++ placeOf source) fs t) :
    Untouched (fun l => S.Spared source l ∧ ¬d.place <+: l) fs t := by
  refine untouched_of_get? (fun {location} hl => ?_) fun hl => h.held_of_disturbed ht hl
  by_cases hway : location <+: S.output ++ placeOf source
  · -- above its place the package can only have made directories, and the output directory is one
    rcases ht.above hway fun he => hl.1.1 (he ▸ List.prefix_refl _) with hsame | hdir
    · exact hsame
    · rw [h.directory_of_isPrefix (hl.1.2 hway), hdir]
  · exact ht.kept hway hl.1.1 (not_sourcePlace_isPrefix hl.2)

/-- When a package without links was to be moved from the directory, no link is below the output directory. -/
theorem Busy.unlinked_of_disturbed (h : d.Busy fs)
    (hfree : ∀ rest target, fs.get? (d.place ++ "dist" :: rest) ≠ some (.link target)) {source : String}
    (ht : Harvester.Disturbed (d.place ++ sourcePlace source) (S.output ++ placeOf source) fs t) :
    t.Unlinked S.output := by
  intro location hl target htarget
  by_cases hdst : S.output ++ placeOf source <+: location
  · rcases ht.links hdst htarget with hlink | ⟨rest, hlink⟩
    · exact h.kept.unlinked location hl target hlink
    · refine hfree ("python" :: "src" :: (placeOf source ++ rest)) target ?_
      simpa [sourcePlace] using hlink
  · by_cases hway : location <+: S.output ++ placeOf source
    · rcases ht.above hway fun he => hdst (he ▸ List.prefix_refl _) with hsame | hdir
      · rw [hsame] at htarget
        exact h.kept.unlinked location hl target htarget
      · rw [hdir] at htarget
        cases htarget
    · rw [ht.kept hway hdst (not_sourcePlace_isPrefix (d.idle.apart hl))] at htarget
      exact h.kept.unlinked location hl target htarget

/-- When a package without links was to be moved from the directory to its place below the output directory, the
directory is still in use, and the places that the harvest spares were not touched. -/
theorem Busy.of_disturbed (h : d.Busy fs)
    (hfree : ∀ rest target, fs.get? (d.place ++ "dist" :: rest) ≠ some (.link target))
    {source : String} (hsource : Segmented source)
    (ht : Harvester.Disturbed (d.place ++ sourcePlace source) (S.output ++ placeOf source) fs t) :
    d.Busy t ∧ Untouched (fun l => S.Spared source l ∧ ¬d.place <+: l) fs t := by
  have hbelow : Below S.output (S.output ++ placeOf source) := below_placeOf S hsource
  have hspared := h.spared_of_disturbed ht
  refine ⟨⟨⟨ht.sound, fun location hl => ?_, h.unlinked_of_disturbed hfree ht, ?_⟩, ?_, fun hl =>
    h.log (h.held_of_disturbed ht hl)⟩, hspared⟩
  · have hzone : S.Spared source location ∧ ¬d.place <+: location := by
      refine ⟨⟨fun hp => hl (.inl (hbelow.of_isPrefix hp)), fun hway => ?_⟩, fun hp => hl (.inr hp)⟩
      rcases List.prefix_or_prefix_of_prefix hway hbelow.1 with htop | htop
      · exact htop
      · by_cases he : location = S.output
        · rw [he]
        · exact absurd (.inl ⟨htop, he⟩) hl
    rw [hspared.shape hzone, h.kept.same location hl]
  · by_cases hroot : S.path.isAbsolute
    · exact .inl hroot
    · refine .inr ((h.kept.working.resolve_left hroot).trans ?_)
      exact (ht.working (not_sourcePlace_isPrefix (h.not_prefix_working hroot))).mono
        (isPrefix_dropLast hbelow.1 hbelow.2.symm)
  · have hway : ¬d.place <+: S.output ++ placeOf source :=
      fun hp => not_prefix_append d.apart.2 d.apart.1 hp
    have hdeep : ¬d.place ++ sourcePlace source <+: d.place := not_append_isPrefix (by simp [sourcePlace])
    rw [ht.kept hway (fun hp => d.apart.1 (hbelow.1.trans hp)) hdeep, h.there]

/-- A package that is found in a directory in use, where no link stands where packages are made, is put in the place of
what is there, or that fails and disturbs no more than its place. -/
theorem Busy.replaces (h : d.Busy fs)
    (hfree : ∀ rest target, fs.get? (d.place ++ "dist" :: rest) ≠ some (.link target))
    {source : String} (hsource : Segmented source) {entry : Entry}
    (hstatus : fs.status .follow (Harvester.sourcePath d.path (importName source)) = .ok (some entry))
    {outcome : Except FileFailure Unit}
    (hreplace : (Harvester.replacePlace (Harvester.sourcePath d.path (importName source))
      ((Path.fromRoot S.output).child (importName source))).run fs = (outcome, t)) :
    Harvester.Replaces (d.place ++ sourcePlace source) (S.output ++ placeOf source) fs outcome t := by
  rw [sourcePath_eq _ hsource] at hstatus hreplace
  rw [hsource.child_importName] at hreplace
  have hmore : Proper (sourcePlace source) := proper_sourcePlace hsource
  have hplace : Proper (placeOf source) := hsource.proper_placeOf
  have hbelow : Below S.output (S.output ++ placeOf source) := below_placeOf S hsource
  obtain ⟨hfault, src, hlocate, hentry⟩ := status_eq_some_iff.1 hstatus
  -- no link on the way: not the directory itself, and none where packages are made
  have hlinks : fs.LinkFree d.place (sourcePlace source) := by
    intro top ht hne target htarget
    rcases List.prefix_cons_iff.1 ht with rfl | ⟨rest, rfl, -⟩
    · exact hne rfl
    · exact hfree rest target htarget
  obtain ⟨rfl, -⟩ := locate_append_inv h.locate hlocate (by simp [sourcePlace]) hmore hlinks
  have hnamed : isProperlyNamed ⟨d.path.anchor, d.path.names ++ sourcePlace source⟩ :=
    isProperlyNamed_append hmore (by simp [sourcePlace])
  have hfaultless : PathFault.ofText? (Path.fromRoot (S.output ++ placeOf source)).text = none :=
    PathFault.ofText?_text_append S.outputFaultless fun _ hname => (hsource.startsPlain_of_mem_placeOf hname).2
  have hfind : ∀ {u}, Removed (S.output ++ placeOf source) fs u → ∀ {v}, Grown u v →
      v.locate .keep ⟨d.path.anchor, d.path.names ++ sourcePlace source⟩ =
        .ok (d.place ++ sourcePlace source) := fun hu _ hv =>
    h.locate_source hmore (by simp [sourcePlace]) (by simp [hentry]) (locate_eq_ok_iff.1 hlocate).1
      hbelow hu hv
  have hne : S.output ++ placeOf source ≠ [] :=
    fun he => S.output_ne_nil (List.append_eq_nil_iff.1 he).1
  exact Harvester.replaces_of_run h.kept.sound hfault hnamed hfind (d.proper_place.append hmore)
    (by simp [sourcePlace]) (by simp [hentry]) (S.outputProper.append hplace) hne hfaultless
    (h.kept.unlinked.linkFree _) (d.apart_source source).1 (d.apart_source source).2 hreplace

/-! ## What is staged -/

/-- The code saved into the directory is written into its view, and nothing else changes. -/
theorem Busy.of_saveFiles (h : d.Busy fs) (hempty : fs.IsEmptyDirectory d.place) {code : Emitter}
    (hcode : ∀ file ∈ code.files, Segmented file.1) {paths : List Path}
    (hsave : (code.saveFiles (.fromRoot d.place)).run fs = (.ok paths, t)) :
    OnlyBelow d.place fs t ∧ t.view d.place = View.empty.writeAll code.files := by
  obtain ⟨honly, hview⟩ := Emitter.run_saveFiles_below h.kept.sound h.there
    (hempty.unlinked h.kept.sound d.proper_place) d.proper_place hcode hsave
  rw [hempty.2] at hview
  exact ⟨honly, hview⟩

/-- The path of the manifest leads on from the directory. -/
theorem manifestPath_eq (d : S.Desk) :
    d.path.child Manifest.fileName = ⟨d.path.anchor, d.path.names ++ [Manifest.fileName]⟩ :=
  Path.child_of_isName _ (by decide)

/-- The name of the manifest is proper. -/
theorem proper_manifest : Proper [Manifest.fileName] := by
  intro name hname
  rw [List.mem_singleton.1 hname]
  decide

/-- The manifest written into the directory is written into its view, and nothing else changes. -/
theorem Busy.of_writeManifest (h : d.Busy fs) (hu : fs.Unlinked d.place) {text : String}
    (hwrite : (writeText (d.path.child Manifest.fileName) text).run fs = (.ok (), t)) :
    OnlyBelow d.place fs t ∧ t.view d.place = (fs.view d.place).write [Manifest.fileName] text :=
  run_writeText_below h.kept.sound d.written_path h.locate h.there hu d.proper_place proper_manifest hwrite

/-- The manifest can be written into the directory when its path is not too long and no directory stands in its
place. -/
theorem Busy.exists_writeManifest (h : d.Busy fs) (hu : fs.Unlinked d.place)
    (hfits : (d.path.child Manifest.fileName).text.utf8ByteSize ≤ maxPathSize)
    (hfree : fs.view d.place [Manifest.fileName] ≠ some .directory) (text : String) :
    ∃ t, (writeText (d.path.child Manifest.fileName) text).run fs = (.ok (), t) := by
  rw [d.manifestPath_eq] at hfits ⊢
  have hfault : PathFault.ofText?
      (⟨d.path.anchor, d.path.names ++ [Manifest.fileName]⟩ : Path).text = none :=
    PathFault.ofText?_text_append d.faultless_path (by decide)
  have hlocate : fs.locate .write ⟨d.path.anchor, d.path.names ++ [Manifest.fileName]⟩ =
      .ok (d.place ++ [Manifest.fileName]) := by
    refine locate_concat h.locate h.there hfits d.proper_place proper_manifest (by decide) ?_
    exact fun target htarget => absurd htarget (hu _ (.inr (List.prefix_append _ _)) target)
  exact ⟨_, run_writeText_ok_iff.2 ⟨hfault, _, hlocate, hfree, rfl⟩⟩

end Site.Desk

/-- What is written leaves what stands where no file is and no way to one. -/
theorem View.writeAll_of_apart {view : View} {files : List (String × String)} {rest : Location}
    (h : ∀ file ∈ files, ¬rest <+: Text.split '/' file.1) : view.writeAll files rest = view rest := by
  induction files generalizing view with
  | nil => rfl
  | cons file others ih =>
    have hfile := h file (by simp)
    have hone : view.write (Text.split '/' file.1) file.2 rest = view rest := by
      unfold View.write
      rw [if_neg, if_neg hfile]
      intro he
      exact hfile (he ▸ List.prefix_refl _)
    show View.writeAll (view.write _ _) others rest = _
    rw [ih fun file hmem => h file (List.mem_cons_of_mem _ hmem), hone]

/-- What a staging directory holds when the compiler is asked to act: the code, and the manifest. -/
def stagedView (code : Emitter) (m : Manifest) : View :=
  (View.empty.writeAll code.files).write [Manifest.fileName] (m.text ++ "\n")

end ProviderBindings
