import ProviderBindings.Proofs.Courses
import ProviderBindings.Proofs.Inspection

/-!
# The staging root and the output directory apart

When a request works on a site. The output directory was resolved and made (`Opened.exists_place`), no links
are in it, and the path of the staging root leads to a place apart from it that does not depend on what is in
it (`Getter.Apart`). Then either no staging directory can be made, and nothing comes of the first turn but
the staging root, or there is a site that is ready for the turns of all names (`Apart.acquire_cases`).
-/

namespace ProviderBindings

open FileSystem

namespace Staging

variable {parent : Option Path} {fs t root : FileSystem} {host host' : Host}

/-- The tree after the staging root was made, if one is given, as far as it could be. -/
def rooted (parent : Option Path) (fs : FileSystem) : FileSystem :=
  match parent with
  | some p => ((makeDirectories p).run fs).2
  | none => fs

/-- A staging root that is given is written when the path that is used for it is. -/
theorem written_of_getD {temporary : Path} (h : (parent.getD temporary).Written) :
    ∀ p, parent = some p → p.Written := by
  rintro p rfl
  exact h

/-- Where the staging root was made, it was made as far as it could be. -/
theorem RootMade.eq_rooted (h : RootMade parent fs root) : root = rooted parent fs := by
  cases parent with
  | none => exact h
  | some p =>
    have hmake : (makeDirectories p).run fs = (.ok (), root) := h
    show root = ((makeDirectories p).run fs).2
    rw [hmake]

/-- No more than new directories come of making the staging root. -/
theorem grown_rooted (hs : fs.Sound) (hp : ∀ p, parent = some p → p.Written) :
    Grown fs (rooted parent fs) := by
  cases parent with
  | none => exact .refl _
  | some p => exact grown_makeDirectories hs (hp p rfl) rfl

/-- Where the staging root is there, nothing comes of making it. -/
theorem rooted_of_directory {temporary : Path} (hp : (parent.getD temporary).Written)
    (hd : fs.isDirectory (parent.getD temporary) = .ok true) : rooted parent fs = fs := by
  cases parent with
  | none => rfl
  | some p =>
    have hnone : (makeDirectories p).run fs = (.ok (), fs) := run_makeDirectories_of_directory hp hd
    exact congrArg Prod.snd hnone

/-- Between trees that differ in nothing but the log file, making the staging root makes no other
difference. -/
theorem rooted_same (hp : ∀ p, parent = some p → p.Written) (h : Same fs t) :
    Same (rooted parent fs) (rooted parent t) := by
  cases parent with
  | none => exact h
  | some p => exact (makeDirectories_same (hp p rfl) _ _ h).2

/-- Between trees that differ in nothing but the log file, the staging root can be made in both or in none. -/
theorem RootMade.of_same (h : RootMade parent t root) (hp : ∀ p, parent = some p → p.Written)
    (hsame : Same fs t) : RootMade parent fs (rooted parent fs) := by
  cases parent with
  | none => rfl
  | some p =>
    have hmake : (makeDirectories p).run t = (.ok (), root) := h
    have hresult := (makeDirectories_same (hp p rfl) _ _ hsame).1
    rw [hmake] at hresult
    exact Prod.ext hresult.symm rfl

/-- When no staging directory can be made, no more than the staging root is. -/
theorem run_acquire_error {label : String} {failure : Failure}
    (h : (acquire label parent).run host = (.error failure, host')) :
    host' = { host with files := rooted parent host.files } := by
  cases acquires_of_run h with
  | @rootless p failure root hparent hroot =>
    subst hparent
    have hfiles : rooted (some p) host.files = root := by
      show ((makeDirectories p).run host.files).2 = root
      rw [hroot]
    rw [hfiles]
  | unmade hroot hmake => rw [run_makeDirectoryAt_error hmake, hroot.eq_rooted]

/-- A staging directory is made where the path of the staging root leads to a directory. -/
theorem exists_root_of_acquire {directory : Path} (hs : host.files.Sound)
    (hp : (parent.getD host.temporary).Written)
    (h : (acquire Site.label parent).run host = (.ok directory, host')) :
    ∃ root place, RootMade parent host.files root ∧ root.Sound ∧
      root.locate .follow (parent.getD host.temporary) = .ok place ∧
      root.get? place = some .directory ∧ Proper place ∧
      PathFault.ofText? (parent.getD host.temporary).text = none := by
  obtain ⟨root, fs, hroot, hmake, -, -⟩ := run_acquire_ok h
  have hsound : root.Sound := by
    rw [hroot.eq_rooted]
    exact (grown_rooted hs (written_of_getD hp)).sound hs
  unfold nextText at hmake
  generalize host.staged + 1 + root.scratchOffset Site.label (parent.getD host.temporary).text
    (host.staged + 1) = n at hmake
  have hname : Path.IsName (scratchName Site.label n) := (Site.proper_scratchName n _ (by simp)).1
  obtain ⟨hfault, place, htext, hfree, -⟩ := run_makeDirectoryAt_ok_iff.1 hmake
  have hlocate := locate_of_joinText hp hname htext
  obtain ⟨hproper, -, -, hparentThere⟩ := hsound.free_place (hp.child _) hlocate (by simp [hfree])
  rw [Path.child_of_isName _ hname] at hlocate
  obtain ⟨middle, hmiddle, rfl⟩ := exists_locate_of_concat hlocate (Site.proper_scratchName n)
  rw [List.dropLast_concat] at hparentThere
  refine ⟨root, middle, hroot, hsound, hmiddle, hparentThere, hproper.of_isPrefix (List.prefix_append _ _), ?_⟩
  -- the text of the new directory starts with that of the staging root, or with a dot
  rcases Path.joinText_text hp hname with he | ⟨he, -⟩
  · rw [scratchText, he, Path.child_of_isName _ hname, PathFault.ofText?_text] at hfault
    exact PathFault.ofText?_text.2 fun other hother => hfault other (List.mem_append_left _ hother)
  · rw [he]
    decide

/-! ## A site for a staging root -/

/-- Whether a path leads to a directory apart from the output directory, in which there are no links, and does so
with nothing in the output directory. -/
structure RootApart (path : Path) (output place : Location) (root : FileSystem) : Prop where
  /-- The tree is sound. -/
  sound : root.Sound
  /-- The place of the output directory has proper names. -/
  outputProper : Proper output
  /-- The operating system takes its path from the root. -/
  outputFaultless : PathFault.ofText? (Path.fromRoot output).text = none
  /-- The output directory is there. -/
  outputThere : root.get? output = some .directory
  /-- No link stands at the output directory, below it or on the way to it. -/
  unlinked : root.Unlinked output
  /-- The path can be written. -/
  written : path.Written
  /-- The operating system takes it. -/
  faultless : PathFault.ofText? path.text = none
  /-- The path leads to the place with nothing in the output directory. -/
  leads : (root.clear output).locate .follow path = .ok place
  /-- A directory stands at the place. -/
  there : root.get? place = some .directory
  /-- The place has proper names. -/
  proper : Proper place
  /-- The place and the output directory are not inside one another. -/
  apart : ¬output <+: place ∧ ¬place <+: output

/-- The site of a staging root apart from the output directory. -/
def RootApart.site {path : Path} {output place : Location} {root : FileSystem}
    (h : RootApart path output place root) : Site where
  base := root.clear output
  output := output
  path := path
  root := place
  sound := h.sound.clear output
  outputProper := h.outputProper
  outputFaultless := h.outputFaultless
  outputThere := by rw [get?_clear_of_not_below fun _ => rfl, h.outputThere]
  cleared := fun hl hname => get?_clear_of_isPrefix hname hl.1 hl.2
  unlinked := by
    intro location hl target htarget
    by_cases hbelow : Below output location ∧ ¬isNameless location
    · rw [get?_clear_of_isPrefix hbelow.2 hbelow.1.1 hbelow.1.2] at htarget
      cases htarget
    · by_cases hname : isNameless location
      · rw [get?_of_isNameless hname] at htarget
        cases htarget
      · have hnot : ¬Below output location := fun hb => hbelow ⟨hb, hname⟩
        rw [get?_clear_of_not_below fun hp => Classical.not_not.1 fun hne => hnot ⟨hp, hne⟩] at htarget
        exact h.unlinked location hl target htarget
  written := h.written
  faultless := h.faultless
  leads := h.leads
  rootThere := by rw [get?_clear_of_not_below fun hp => absurd hp h.apart.1, h.there]
  rootProper := h.proper
  apart := h.apart

/-- The site of a staging root was kept in the tree it was made in. -/
theorem RootApart.kept {path : Path} {output place : Location} {root : FileSystem}
    (h : RootApart path output place root) : h.site.Kept (fun _ => False) root := by
  refine ⟨h.sound, fun location hl => ?_, h.unlinked, .inr ?_⟩
  · have hnot : ¬Below output location := fun hb => hl (.inl hb)
    have hsame : (root.clear output).get? location = root.get? location :=
      get?_clear_of_not_below fun hp => Classical.not_not.1 fun hne => hnot ⟨hp, hne⟩
    show root.shapeAt location = (root.clear output).shapeAt location
    unfold shapeAt
    rw [hsame]
  · show Shifted output (root.clear output).workingDirectory root.workingDirectory
    unfold clear
    by_cases hin : output <+: root.workingDirectory
    · rw [if_pos (within_iff_isPrefix.2 hin)]
      exact (shifted_detach hin).symm
    · rw [if_neg (by rwa [within_iff_isPrefix])]
      exact .refl _ _

end Staging

namespace Getter

variable {g : Getter} {request : Request} {start : Host} {output : Path} {files : FileSystem}

/-! ## The output directory -/

/-- An output directory that was made is named from the root. No more than directories were made for it, and it
stands where its names say when no links are on the way. -/
theorem Opened.exists_place (h : Opened request start output files) (hs : start.files.Sound)
    (hp : request.outputDirectory.Written) :
    ∃ place, output = .fromRoot place ∧ Proper place ∧ PathFault.ofText? output.text = none ∧
      Grown start.files files ∧ (files.LinkFree [] place →
        files.locate .follow output = .ok place ∧ files.get? place = some .directory) := by
  obtain ⟨place, rfl, hproper⟩ := exists_proper_of_run_resolve hs hp h.resolved
  obtain ⟨hgrown, hdirectory⟩ := run_makeDirectories_ok hs hproper.written h.made
  obtain ⟨hfault, other, hother, hthere⟩ := isDirectory_eq_true_iff.1 hdirectory
  refine ⟨place, rfl, hproper, hfault, hgrown, fun hfree => ?_⟩
  obtain ⟨rfl, -⟩ := locate_fromRoot_inv hother hproper hfree
  exact ⟨hother, hthere⟩

/-- Whether the output directory and the staging root of a request are apart: no links are on the way to the
output directory or in it, and where the path of the staging root leads once both were made, it leads with
nothing in the output directory, and neither of the two is inside the other. -/
structure Apart (g : Getter) (request : Request) (start : Host) : Prop where
  /-- No link stands at the output directory, below it or on the way to it. -/
  unlinked : ∀ {output : Location},
    (Host.resolve request.outputDirectory).run start = (.ok (.fromRoot output), start) →
    start.files.Unlinked output
  /-- Where the path of the staging root leads once both were made, it leads with nothing in the output directory, and
  neither of the two is inside the other. -/
  leads : ∀ {output place : Location} {files root : FileSystem},
    Opened request start (.fromRoot output) files → Staging.RootMade g.stagingRoot files root →
    root.locate .follow (g.stagingRoot.getD start.temporary) = .ok place →
    (root.clear output).locate .follow (g.stagingRoot.getD start.temporary) = .ok place ∧
      ¬output <+: place ∧ ¬place <+: output

/-- The output directory of a request that keeps it apart stands at a place from the root, without links. -/
theorem Apart.opened (hapart : g.Apart request start) (hs : start.files.Sound)
    (hp : request.outputDirectory.Written) (h : Opened request start output files) :
    ∃ place, output = .fromRoot place ∧ Proper place ∧ PathFault.ofText? output.text = none ∧
      Grown start.files files ∧ files.Sound ∧ files.Unlinked place ∧
      files.locate .follow output = .ok place ∧ files.get? place = some .directory := by
  obtain ⟨place, rfl, hproper, hfault, hgrown, hthere⟩ := h.exists_place hs hp
  have hunlinked : files.Unlinked place := hgrown.unlinked_iff.2 (hapart.unlinked h.resolved)
  obtain ⟨hlocate, hdirectory⟩ := hthere fun hl _ => hunlinked _ (.inl hl)
  exact ⟨place, rfl, hproper, hfault, hgrown, hgrown.sound hs, hunlinked, hlocate, hdirectory⟩

/-- Whether or not the output directory can be made, nothing is touched but what is above its end and there. -/
theorem Apart.untouched_made (hapart : g.Apart request start) (hs : start.files.Sound)
    (hp : request.outputDirectory.Written) {place : Location} {result : Except FileFailure Unit}
    (hresolve : (Host.resolve request.outputDirectory).run start = (.ok (.fromRoot place), start))
    (hmake : (makeDirectories (.fromRoot place)).run start.files = (result, files)) :
    files.Sound ∧ Untouched (¬· <+: place) start.files files := by
  have hproper : Proper place := by
    obtain ⟨other, hother, hproper⟩ := exists_proper_of_run_resolve hs hp hresolve
    cases hother
    exact hproper
  have hfree : start.files.LinkFree [] place := fun hl _ => hapart.unlinked hresolve _ (.inl hl)
  have hgrown := grown_makeDirectories hs hproper.written hmake
  refine ⟨hgrown.sound hs, untouched_of_get? (fun hl => ?_) fun hl => by rwa [hgrown.held] at hl⟩
  exact elsewhere_makeDirectories hs hproper hfree hmake hl

/-- The staging root of a request that keeps it apart, once it was made and where its path leads to a directory, is
apart from the output directory. -/
theorem Apart.rootApart (hapart : g.Apart request start) (hs : start.files.Sound)
    (hp : request.outputDirectory.Written) (hroot : (g.stagingRoot.getD start.temporary).Written)
    {place rootPlace : Location} {root : FileSystem} (h : Opened request start (.fromRoot place) files)
    (hmade : Staging.RootMade g.stagingRoot files root)
    (hleads : root.locate .follow (g.stagingRoot.getD start.temporary) = .ok rootPlace)
    (hthere : root.get? rootPlace = some .directory) (hrootProper : Proper rootPlace)
    (hfaultless : PathFault.ofText? (g.stagingRoot.getD start.temporary).text = none) :
    files.Sound ∧ Staging.RootApart (g.stagingRoot.getD start.temporary) place rootPlace root := by
  obtain ⟨other, hplace, hproper, hfault, -, hsound, hunlinked, -, hout⟩ := hapart.opened hs hp h
  obtain rfl : place = other := congrArg Path.names hplace
  have hgrown : Grown files root := by
    rw [hmade.eq_rooted]
    exact Staging.grown_rooted hsound (Staging.written_of_getD hroot)
  obtain ⟨hcleared, hbeside⟩ := hapart.leads h hmade hleads
  exact ⟨hsound,
    { sound := hgrown.sound hsound
      outputProper := hproper
      outputFaultless := hfault
      outputThere := hgrown.kept hout
      unlinked := hgrown.unlinked_iff.2 hunlinked
      written := hroot
      faultless := hfaultless
      leads := hcleared
      there := hthere
      proper := hrootProper
      apart := hbeside }⟩

/-- When a staging directory could be made for the first name of a request, there is a site that is ready for
all of them. -/
theorem Apart.exists_site (hapart : g.Apart request start) (hs : start.files.Sound)
    (hp : request.outputDirectory.Written) (hroot : (g.stagingRoot.getD start.temporary).Written)
    {place : Location} (h : Opened request start (.fromRoot place) files) {noted made : Host}
    {directory : Path} (hnoted : Noted { start with files } noted)
    (hacquire : (Staging.acquire Site.label g.stagingRoot).run noted = (.ok directory, made)) :
    ∃ S : Site, S.output = place ∧ S.path = g.stagingRoot.getD start.temporary ∧
      S.Ready g.stagingRoot files (Staging.rooted g.stagingRoot files) := by
  obtain ⟨-, -, -, -, -, hsound, -⟩ := hapart.opened hs hp h
  have hparent := Staging.written_of_getD hroot
  obtain ⟨line, hline⟩ := hnoted.files
  have hsame : Same files noted.files := by
    rw [hline]
    exact hsound.same_of_writeHeld line
  have hsoundNoted : noted.files.Sound := by
    rw [hline]
    exact hsound.writeHeld line
  have htemporary : noted.temporary = start.temporary := hnoted.temporary
  obtain ⟨root', rootPlace, hmade', -, hleads', hthere', hrootProper, hfaultless⟩ :=
    Staging.exists_root_of_acquire hsoundNoted (by rwa [htemporary]) hacquire
  rw [htemporary] at hleads' hfaultless
  -- the same holds of the tree without the notice
  obtain rfl := hmade'.eq_rooted
  have hmade := hmade'.of_same hparent hsame
  have hrooted : Same (Staging.rooted g.stagingRoot files) (Staging.rooted g.stagingRoot noted.files) :=
    Staging.rooted_same hparent hsame
  have hleads : (Staging.rooted g.stagingRoot files).locate .follow
      (g.stagingRoot.getD start.temporary) = .ok rootPlace := by
    rw [← hleads']
    exact (locate_eq_of_same hrooted.shape (startOf_eq hrooted.working _)).symm
  have hrootThere : (Staging.rooted g.stagingRoot files).get? rootPlace = some .directory := by
    rw [← shapeAt_eq_directory, ← hrooted.shape rootPlace id, shapeAt_eq_directory]
    exact hthere'
  obtain ⟨-, hrootApart⟩ := hapart.rootApart hs hp hroot h hmade hleads hrootThere hrootProper hfaultless
  exact ⟨hrootApart.site, rfl, rfl, hsound, hmade, hrootApart.kept⟩

/-- The turns of the names of a request that keeps output directory and staging root apart. Either no staging
directory can be made for the first name, and no more than the staging root is, or all turns are on a site. -/
theorem Turns.of_apart {code : Emitter} {names : List String} {ds : List Dispatch}
    {result : Except Failure (List Path)} {stop : Host} {place : Location}
    (hturns : Turns g code request .package (.fromRoot place) names { start with files } ds result stop)
    (hapart : g.Apart request start) (hs : start.files.Sound) (hp : request.outputDirectory.Written)
    (hroot : (g.stagingRoot.getD start.temporary).Written)
    (h : Opened request start (.fromRoot place) files) (hpython : request.language = .python)
    (hne : names ≠ []) (hcode : ∀ file ∈ code.files, Segmented file.1) (hneat : Dispatch.Neat ds) :
    ((∃ failure, result = .error failure) ∧ ds = [] ∧ stop.staged = start.staged ∧
        Same (Staging.rooted g.stagingRoot files) stop.files) ∨
      ∃ S : Site, S.output = place ∧ S.path = g.stagingRoot.getD start.temporary ∧
        S.Ready g.stagingRoot files (Staging.rooted g.stagingRoot files) ∧
        S.Passed (Staging.rooted g.stagingRoot files) { start with files } names ds stop := by
  have hsound : files.Sound := by
    obtain ⟨-, -, -, -, -, hsound, -⟩ := hapart.opened hs hp h
    exact hsound
  -- a first turn with a staging directory shows the site
  have hsite : ∀ {noted made : Host} {directory : Path}, Noted { start with files } noted →
      (Staging.acquire Site.label g.stagingRoot).run noted = (.ok directory, made) →
      ∃ S : Site, S.output = place ∧ S.path = g.stagingRoot.getD start.temporary ∧
        S.Ready g.stagingRoot files (Staging.rooted g.stagingRoot files) ∧
        S.Passed (Staging.rooted g.stagingRoot files) { start with files } names ds stop := by
    intro noted made directory hnoted hacquire
    obtain ⟨S, rfl, hpath, hready⟩ := hapart.exists_site hs hp hroot h hnoted hacquire
    exact ⟨S, rfl, hpath, hready, hturns.on_site hpython hne hcode hready hpath hneat⟩
  cases hturns with
  | done => exact absurd rfl hne
  | stopped hc hnoted hturn =>
    cases hturn with
    | unstaged hacquire =>
      obtain ⟨line, hline⟩ := hnoted.files
      have hsame := Staging.rooted_same (Staging.written_of_getD hroot) (hsound.same_of_writeHeld line)
      rw [← hline] at hsame
      rw [Staging.run_acquire_error hacquire]
      exact .inl ⟨⟨_, rfl⟩, rfl, hnoted.staged, hsame⟩
    | staged hacquire _ => exact .inr (hsite hnoted hacquire)
  | passed hc hnoted hturn _ =>
    cases hturn with
    | staged hacquire _ => exact .inr (hsite hnoted hacquire)

/-- The output directory of a request on the bare host. -/
theorem opened_stocked (h : request.outputDirectory = .fromRoot ["out"]) :
    Opened request stocked.host (.fromRoot ["out"])
      ((makeDirectories (.fromRoot ["out"])).run stocked.host.files).2 := by
  refine ⟨?_, Prod.ext (by decide +kernel) rfl⟩
  rw [h]
  exact run_resolve_ok_iff.2 ⟨rfl, by decide, .inl rfl, by decide +kernel, by decide +kernel⟩

/-- A request on the bare host keeps the staging root and the output directory apart. -/
theorem apart_stocked (h : request.outputDirectory = .fromRoot ["out"]) :
    ({} : Getter).Apart request stocked.host := by
  have hleads : ∀ root, root = ((makeDirectories (.fromRoot ["out"])).run stocked.host.files).2 →
      root.locate .follow stocked.host.temporary = .ok ["tmp"] ∧
        (root.clear ["out"]).locate .follow stocked.host.temporary = .ok ["tmp"] := by
    rintro root rfl
    decide +kernel
  refine ⟨fun _ location _ target htarget => ?_, fun {output place files root} hopened hmade hlocate => ?_⟩
  · exact get?_ne_link_of_isUnlinked (by decide : stocked.host.files.isUnlinked = true) location target htarget
  · have hsame := (opened_stocked h).resolved.symm.trans hopened.resolved
    cases hsame
    obtain rfl := hmade
    obtain ⟨hfirst, hcleared⟩ := hleads root (by rw [hopened.made])
    have hplace : root.locate .follow stocked.host.temporary = .ok place := hlocate
    obtain rfl := Except.ok.inj (hfirst.symm.trans hplace)
    exact ⟨hcleared, by decide, by decide⟩

end Getter

end ProviderBindings
