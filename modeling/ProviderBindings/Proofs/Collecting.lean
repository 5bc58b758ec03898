import ProviderBindings.Proofs.FileSystem.Spelling
import ProviderBindings.Proofs.Landing

/-!
# Packages that are collected

What a harvest comes to for a plain path of the place of the package, wherever the directories are in which the packager
works and in which packages are collected. The place is cleared, the missing directories on the way to it are made, and
the package is renamed to it; when all of this succeeds, the package stands there and everything else is as it was
(`Harvester.run_harvest_collected`).

The directory in which the packager works may be reached through links, and the harvest may remove one of them with what
is in the place. Then the package is not found any more, and the harvest fails.
-/

namespace ProviderBindings

open FileSystem

namespace Harvester

variable {fs t u v : FileSystem} {target directory output : Path} {name : String} {work : Location}
  {host host' : Host}

/-! ## Clearing a plain place -/

/-- What was cleared has a name: neither the root nor the directory that a path starts at can be removed. -/
theorem names_ne_nil_of_run_clearPlace (hs : fs.Sound) (h : (clearPlace target).run fs = (.ok (), u)) :
    target.names ≠ [] := by
  intro hnil
  -- without names the path leads to where it starts, which is a directory
  have hd : fs.get? (fs.startOf target) = some .directory := hs.rooted_startOf target (List.prefix_refl _)
  have htext : target.text.utf8ByteSize ≤ maxPathSize ∧ PathFault.ofText? target.text = none := by
    obtain ⟨anchor, names⟩ := target
    obtain rfl : names = [] := hnil
    cases anchor <;> decide
  have hl {ending : Ending} : fs.locate ending target = .ok (fs.startOf target) :=
    locate_eq_ok_iff.2 ⟨htext.1, 0, Nat.zero_le _, hnil ▸ .done⟩
  cases clears_of_run h with
  | vacant hstatus =>
    rw [status_eq_some_iff.2 ⟨htext.2, _, hl, hd⟩] at hstatus
    cases hstatus
  | tree _ _ hgone => exact (run_removeTree_ok hgone).1 hnil
  | file _ _ hgone =>
    obtain ⟨place, hplace, hplain, -⟩ := run_unlink_ok hgone
    rw [hl] at hplace
    cases hplace
    exact hplain hd

/-- The place at the end of a plain path was cleared by removing what is at and below it, or a link stands there that
leads nowhere, and nothing was done. -/
theorem run_clearPlace_plain (hs : fs.Sound) (hp : fs.Plain target) (hfault : PathFault.ofText? target.text = none)
    (h : (clearPlace target).run fs = (.ok (), u)) :
    Removed (fs.endOf target) fs u ∨
      u = fs ∧ fs.status .follow target = .ok none ∧ ∃ text, fs.get? (fs.endOf target) = some (.link text) := by
  have hne : target.names ≠ [] := names_ne_nil_of_run_clearPlace hs h
  cases clears_of_run h with
  | vacant hstatus =>
    by_cases hlink : ∃ text, fs.get? (fs.endOf target) = some (.link text)
    · exact .inr ⟨rfl, hstatus, hlink⟩
    · have hnolink : ∀ text, fs.get? (fs.endOf target) ≠ some (.link text) := fun text hthere => hlink ⟨text, hthere⟩
      exact .inl (hs.removed_of_none (hs.none_of_plain hp hne hnolink hfault hstatus))
  | tree _ _ hgone =>
    obtain ⟨-, place, other, hl, hl', rfl⟩ := run_removeTree_ok hgone
    obtain rfl : place = fs.endOf target := hp.locate_keep hne hl
    -- the path leads there also when what is below has been removed
    have hstart : (fs.clear (fs.endOf target)).startOf target = fs.startOf target :=
      startOf_eq_of_endOf hne fun hout => workingDirectory_clear_of_not_below fun hbelow => hout hbelow.1
    obtain ⟨hplain, hend⟩ := hp.of_links hstart link_of_clear
    obtain rfl : other = fs.endOf target := (hplain.locate_keep hne hl').trans hend
    exact .inl (removed_clear_remove fs _)
  | file _ _ hgone =>
    obtain ⟨place, hl, -, rfl⟩ := run_unlink_ok hgone
    obtain rfl : place = fs.endOf target := hp.locate_keep hne hl
    exact .inl (removed_remove fs _)

/-! ## Making room -/

/-- Whether a tree has room at the end of a plain path for what is put there in place of what was there in another. -/
structure Readied (target : Path) (fs v : FileSystem) : Prop where
  /-- The tree is sound. -/
  sound : v.Sound
  /-- No link and no double dots are on the way to the end of the path. -/
  plain : v.Plain target
  /-- The path has the end that it had. -/
  same : v.endOf target = fs.endOf target
  /-- There are no new links. -/
  links : LinksLeft fs v
  /-- The working directory is where it was, or was detached from there. -/
  working : Detached fs.workingDirectory v.workingDirectory
  /-- No directory stands there. -/
  free : v.get? (fs.endOf target) ≠ some .directory
  /-- Nor is a directory found by the text of the path. -/
  shows : v.showsDirectory target.text = false
  /-- Without what is there, it is the tree from which the place was removed and in which the missing directories on the
  way to it were made. -/
  cleared : ∃ u w, Removed (fs.endOf target) fs u ∧ Grown u w ∧
    (∀ location, w.get? location =
      if location <+: (fs.endOf target).dropLast then some .directory else u.get? location) ∧
    w.get? (fs.endOf target) = none ∧ w.remove (fs.endOf target) = v.remove (fs.endOf target)

/-- When the place was removed and the missing directories on the way to it were made, there is room. -/
theorem readied_of_removed (hs : fs.Sound) (hp : fs.Plain target) (hne : target.names ≠ [])
    (hremoved : Removed (fs.endOf target) fs u)
    (hmake : (makeDirectories target.parent).run u = (.ok (), v)) : Readied target fs v := by
  have hname : ¬isNameless (fs.endOf target) := hp.not_isNameless hne
  have hroot : fs.endOf target ≠ [] := endOf_ne_nil fs hne
  have hus : u.Sound := hremoved.sound hs
  -- neither step moves the start of the path or makes a link, so that the path stays plain
  obtain ⟨hplain, hend⟩ := hp.of_links (startOf_eq_of_endOf hne hremoved.working) hremoved.link
  obtain ⟨hgrown, -⟩ := run_makeDirectories_ok hus hplain.written.parent hmake
  have hmade : ∀ location, v.get? location =
      if location <+: (fs.endOf target).dropLast then some .directory else u.get? location := by
    have hspelled := run_makeDirectories_spelled_ok hus hplain.proper_parent hplain.linkFree hmake
    rwa [endOf_parent u hne, hend] at hspelled
  have hvs : v.Sound := hgrown.sound hus
  have hfree : v.get? (fs.endOf target) = none := by
    rw [hmade, if_neg (not_isPrefix_dropLast hroot), hremoved.gone hname (List.prefix_refl _)]
  have hlinks : LinksLeft fs v := hremoved.linksLeft hgrown hvs hfree
  have hstart : v.startOf target = fs.startOf target := by
    rw [startOf_eq hgrown.working, startOf_eq_of_endOf hne hremoved.working]
  obtain ⟨hvplain, hvend⟩ := hp.of_links hstart hlinks.old
  refine ⟨hvs, hvplain, hvend, hlinks, ?_, by simp [hfree], ?_, u, v, hremoved, hgrown, hmade, hfree, rfl⟩
  · rw [hgrown.working]
    by_cases hin : fs.endOf target <+: fs.workingDirectory
    · rw [hremoved.detached hin]
      exact detached_detach ((List.dropLast_prefix _).trans hin)
    · rw [hremoved.working hin]
      exact .refl _
  · refine showsDirectory_text hvplain.written fun place hl => ?_
    rw [hvplain.locate_of_not_link (by simp [hvend, hfree]) hl, hvend, hfree]
    simp

/-- Where a link stands that leads nowhere, there is room without a change. -/
theorem readied_of_link (hs : fs.Sound) (hp : fs.Plain target) (hne : target.names ≠ [])
    (hfault : PathFault.ofText? target.text = none) (hstatus : fs.status .follow target = .ok none) {text : String}
    (hlink : fs.get? (fs.endOf target) = some (.link text))
    (hmake : (makeDirectories target.parent).run fs = (.ok (), v)) : Readied target fs v := by
  have hname : ¬isNameless (fs.endOf target) := hp.not_isNameless hne
  have hroot : fs.endOf target ≠ [] := endOf_ne_nil fs hne
  have habove : fs.Rooted (fs.endOf target).dropLast := hp.rooted_dropLast hs hne (by simp [hlink])
  obtain rfl : v = fs := run_makeDirectories_rooted hs hp.proper_parent (by rwa [endOf_parent fs hne]) hmake
  have hworking : ¬v.endOf target <+: v.workingDirectory := by
    intro hin
    rw [hs.working hin] at hlink
    cases hlink
  have hremoved := removed_remove v (v.endOf target)
  refine ⟨hs, hp, rfl, .refl v, .refl _, by simp [hlink], ?_, _, _, hremoved, .refl _, fun location => ?_,
    get?_remove_of_isPrefix hname (List.prefix_refl _), remove_remove ?_⟩
  · exact showsDirectory_of_status_none hp.written hfault hstatus
  · split
    · next hway =>
      rw [hremoved.kept fun hin => not_isPrefix_dropLast hroot (hin.trans hway)]
      exact habove hway
    · rfl
  · rwa [hremoved.working hworking]

/-- Clearing a place and making the directories above it makes room. -/
theorem readied_of_run (hs : fs.Sound) (hp : fs.Plain target) (hfault : PathFault.ofText? target.text = none)
    (hclear : (clearPlace target).run fs = (.ok (), u))
    (hmake : (makeDirectories target.parent).run u = (.ok (), v)) : Readied target fs v := by
  have hne : target.names ≠ [] := names_ne_nil_of_run_clearPlace hs hclear
  rcases run_clearPlace_plain hs hp hfault hclear with hremoved | ⟨rfl, hstatus, text, hlink⟩
  · exact readied_of_removed hs hp hne hremoved hmake
  · exact readied_of_link hs hp hne hfault hstatus hlink hmake

/-! ## A harvest along a plain path -/

/-- What was put at the end of a plain path in place of what was there has been harvested, when it stood below a
directory with no link on the way. -/
theorem run_replacePlace_plain (hs : fs.Sound) (hdirectory : directory.Written)
    (hwork : fs.locate .follow directory = .ok work) {first next : String} {rest : List String}
    (hmore : Proper (first :: next :: rest)) (hfree : fs.LinkFree work (first :: next :: rest))
    (hp : fs.Plain target) (hin : ¬work ++ first :: next :: rest <+: fs.endOf target)
    (h : (replacePlace ⟨directory.anchor, directory.names ++ first :: next :: rest⟩ target).run fs = (.ok (), t)) :
    Harvested (work ++ first :: next :: rest) (fs.endOf target) fs t := by
  have hsource : (⟨directory.anchor, directory.names ++ first :: next :: rest⟩ : Path).Written := by
    intro name hname
    rcases List.mem_append.1 hname with hname | hname
    · exact hdirectory name hname
    · exact (hmore name hname).1
  rw [replacePlace] at h
  obtain ⟨⟨⟩, u, hclear, hrest⟩ := exists_of_run_bind_ok h
  obtain ⟨⟨⟩, v, hmake, hmove⟩ := exists_of_run_bind_ok hrest
  have hne : target.names ≠ [] := names_ne_nil_of_run_clearPlace hs hclear
  have hfault : PathFault.ofText? target.text = none := by
    cases hfault : PathFault.ofText? target.text with
    | none => rfl
    | some fault =>
      obtain ⟨failure, hbad⟩ := run_move_error hp.written fun hnone => by simp [hfault] at hnone
      rw [hbad] at hmove
      cases hmove
  have hready : Readied target fs v := readied_of_run hs hp hfault hclear hmake
  -- wherever the two paths still lead, they lead to these places
  have hsrc {place : Location} (hl : v.locate .keep ⟨directory.anchor, directory.names ++ first :: next :: rest⟩ =
      .ok place) : place = work ++ first :: next :: rest :=
    hready.links.locate_append hready.sound hready.working hwork hl hmore hfree
  have hdst {place : Location} (hl : v.locate .keep target = .ok place) : place = fs.endOf target :=
    (hready.plain.locate_keep hne hl).trans hready.same
  have hnamed : isProperlyNamed target := isProperlyNamed_of_proper hp.proper hne
  have hrenamable : v.Renamable ⟨directory.anchor, directory.names ++ first :: next :: rest⟩ target := by
    refine ⟨hsource, hp.written, isProperlyNamed_append hmore (by simp), hnamed, fun {src dst} hl hl' => ?_⟩
    rw [hsrc hl, hdst hl']
    exact hin
  obtain ⟨src, dst, hl, hl', rfl⟩ := hrenamable.run_move_ok hready.shows hmove
  obtain rfl : src = work ++ first :: next :: rest := hsrc hl
  obtain rfl : dst = fs.endOf target := hdst hl'
  have hname : ¬isNameless (work ++ first :: next :: rest) := by
    rw [isNameless_append (by simp)]
    exact hmore.not_isNameless (by simp)
  -- directories lead to the package, so that it is not in the place
  have hout : ¬fs.endOf target <+: work ++ first :: next :: rest := by
    intro hbelow
    have hroot : v.Rooted (work ++ first :: next :: rest).dropLast :=
      (hready.sound.arrival hsource hl).rooted_dropLast
    refine hready.free (hroot (isPrefix_dropLast hbelow ?_))
    intro he
    exact hin (he ▸ List.prefix_refl _)
  obtain ⟨hproper, -, hroot, -⟩ := hready.sound.named_place hsource hl hname
  obtain ⟨hproper', hshort, hroot', -⟩ :=
    hready.sound.named_place hp.written hl' (hp.not_isNameless hne)
  obtain ⟨w, x, hremoved, hgrown, hmade, hvacant, hsame⟩ := hready.cleared
  rw [← hsame]
  exact harvested_transplant hs hproper hroot hproper' hroot' hin hout hremoved hgrown hmade hvacant hshort

/-! ## A harvest -/

/-- Where the package for a name is made below the directory that the packager works in. -/
def packagePlace (name : String) : Location :=
  "dist" :: "python" :: "src" :: (Path.ofString name).names

/-- A relative text put after a path adds its names. -/
theorem child_of_relative (p : Path) (h : (Path.ofString name).anchor = .relative) :
    p.child name = ⟨p.anchor, p.names ++ (Path.ofString name).names⟩ := by
  unfold Path.child Path.join
  rw [if_neg]
  simp [Path.isAbsolute, h]

/-- The path of the package for a relative name leads on from the directory that the packager works in. -/
theorem sourcePath_of_relative (directory : Path) (h : (Path.ofString name).anchor = .relative) :
    sourcePath directory name = ⟨directory.anchor, directory.names ++ packagePlace name⟩ := by
  unfold sourcePath packagePlace
  rw [child_of_relative _ h, Path.child_of_isName _ (by decide), Path.child_of_isName _ (by decide),
    Path.child_of_isName _ (by decide)]
  simp

/-- The place of the package is proper when the name has no double dots. -/
theorem proper_packagePlace (hup : ".." ∉ (Path.ofString name).names) : Proper (packagePlace name) := by
  have hfront : Proper ["dist", "python", "src"] := by
    intro part hpart
    revert part
    decide
  have hname : Proper (Path.ofString name).names := fun part hpart =>
    ⟨Path.written_ofString name part hpart, fun he => hup (he ▸ hpart)⟩
  exact hfront.append hname

/-- A harvest whose package cannot be looked up fails with the error of that and changes nothing. -/
theorem run_harvest_of_status_error {e : SystemError}
    (h : host.files.status .follow (sourcePath directory name) = .error e) :
    (harvest directory output name .package).run host = (.error (.system e), host) := by
  unfold harvest
  dsimp only
  rw [run_bind, run_hostLook, pathExists, h]
  rfl

/-- A harvest without a package fails and changes nothing. It fails for want of the package, or because the path of that
is too long to be looked up. -/
theorem run_harvest_missing (hrelative : (Path.ofString name).anchor = .relative)
    (hup : ".." ∉ (Path.ofString name).names) (hwork : host.files.locate .follow directory = .ok work)
    (hfree : host.files.LinkFree work (packagePlace name))
    (hnone : host.files.get? (work ++ packagePlace name) = none) :
    ∃ failure, (harvest directory output name .package).run host = (.error failure, host) ∧
      (failure = .generation { cause := .harvest (.outputMissing (sourcePath directory name).text) } ∨
        host.files.locate .follow (sourcePath directory name) = .error .nameTooLong ∧
          failure = .system (.on .nameTooLong (sourcePath directory name))) := by
  -- wherever the path leads, nothing is found there
  have hstatus : ∀ entry, host.files.status .follow (sourcePath directory name) ≠ .ok (some entry) := by
    intro entry hfound
    obtain ⟨-, place, hl, hentry⟩ := status_eq_some_iff.1 hfound
    rw [sourcePath_of_relative directory hrelative] at hl
    obtain ⟨rfl, -⟩ := locate_append_inv hwork hl (by simp [packagePlace]) (proper_packagePlace hup) hfree
    rw [hnone] at hentry
    cases hentry
  cases hlook : host.files.status .follow (sourcePath directory name) with
  | ok found =>
    cases found with
    | none =>
      unfold harvest
      dsimp only
      rw [run_bind, run_hostLook, pathExists, hlook]
      exact ⟨_, rfl, .inl rfl⟩
    | some entry => exact absurd hlook (hstatus entry)
  | error e =>
    refine ⟨_, run_harvest_of_status_error hlook, .inr ?_⟩
    unfold status at hlook
    split at hlook
    · cases hlook
    · split at hlook
      · cases hlook
      · next hlong => exact ⟨hlong, congrArg _ (Except.error.inj hlook).symm⟩
      · cases hlook

/-- What lies apart from the package and its place is as it was after a harvest. -/
theorem Harvested.view_eq {src dst place : Location} (h : Harvested src dst fs t) (hsrc : ¬src <+: place)
    (hsrc' : ¬place <+: src) (hdst : ¬dst <+: place) (hdst' : ¬place <+: dst) : t.view place = fs.view place := by
  funext rest
  exact h.kept (fun hp => hdst' ((List.prefix_append _ _).trans hp)) (not_prefix_append hdst hdst')
    (not_prefix_append hsrc hsrc')

/-- **A harvest replaces the place of the package, and touches nothing else.** The output path has no double dots, and
no link stands at the parent of the place or on the way there; the directory in which the packager works and the output
directory are not inside one another, and no link is on the way from the former to the package.

If the harvest returns, it gives the path of the place in the output directory. The package stands there as it stood
where it was made and is gone from there, missing directories on the way to the place were made, and everything else is
as it was; after that no more than a notice is added to the log. When a link stood at the place, what it led to is as it
was, unless that is the package itself or has the package or the place in it. If there is no package, the harvest fails and
nothing changes; it fails for want of the package, or because the path of that is too long to be looked up. -/
theorem run_harvest_collected (hs : host.files.Sound) (hdirectory : directory.Written)
    (hrelative : (Path.ofString name).anchor = .relative) (hplain : host.files.Plain (output.child name))
    (hwork : host.files.locate .follow directory = .ok work)
    (hfree : host.files.LinkFree work (packagePlace name))
    (hin : ¬Below work (host.files.endOf output)) (hout : ¬Below (host.files.endOf output) work) :
    (∀ {path host'}, (harvest directory output name .package).run host = (.ok path, host') →
      path = output.child name ∧
        ∃ files line, host'.files = files.writeHeld line ∧
          Harvested (work ++ packagePlace name) (host.files.endOf path) host.files files ∧
          ∀ {text place}, host.files.get? (host.files.endOf path) = some (.link text) →
            host.files.locate .follow path = .ok place → ¬work ++ packagePlace name <+: place →
            ¬place <+: work ++ packagePlace name → ¬place <+: host.files.endOf path →
            files.view place = host.files.view place) ∧
      (host.files.get? (work ++ packagePlace name) = none →
        ∃ failure, (harvest directory output name .package).run host = (.error failure, host) ∧
          (failure = .generation { cause := .harvest (.outputMissing (sourcePath directory name).text) } ∨
            host.files.locate .follow (sourcePath directory name) = .error .nameTooLong ∧
              failure = .system (.on .nameTooLong (sourcePath directory name)))) := by
  have hnames : (output.child name).names = output.names ++ (Path.ofString name).names := by
    rw [child_of_relative output hrelative]
  have hend : host.files.endOf (output.child name) = host.files.endOf output ++ (Path.ofString name).names := by
    rw [child_of_relative output hrelative]
    exact (List.append_assoc _ _ _).symm
  have hup : ".." ∉ (Path.ofString name).names := fun hmem =>
    hplain.noUp (hnames ▸ List.mem_append_right _ hmem)
  refine ⟨fun {path host'} hrun => ?_, run_harvest_missing hrelative hup hwork hfree⟩
  cases harvests_of_run hrun with | @moved entry files _ _ hreplace hnoted => ?_
  obtain ⟨line, hline⟩ := hnoted.files
  have hapart : ¬work ++ packagePlace name <+: host.files.endOf (output.child name) := by
    rw [hend]
    exact not_isPrefix_of_apart hin hout (by simp [packagePlace]; omega)
  rw [sourcePath_of_relative directory hrelative] at hreplace
  have hharvested : Harvested (work ++ packagePlace name) (host.files.endOf (output.child name)) host.files files :=
    run_replacePlace_plain hs hdirectory hwork (proper_packagePlace hup) hfree hplain hapart hreplace
  refine ⟨rfl, files, line, hline, hharvested, fun {text place} hlink hl hsrc hsrc' hdst => ?_⟩
  exact hharvested.view_eq hsrc hsrc' (not_isPrefix_of_link hs hplain.written hl hlink) hdst

/-! ## A harvest in place of a link, and one by way of its own place -/

/-- A host where a link to a directory stands at the place of a package. -/
def linkedHost : Host :=
  { files :=
      { entries :=
          [(["s"], .directory), (["s", "dist"], .directory), (["s", "dist", "python"], .directory),
           (["s", "dist", "python", "src"], .directory), (["s", "dist", "python", "src", "a"], .directory),
           (["s", "dist", "python", "src", "a", "new"], .file (.text "n") false), (["w"], .directory),
           (["w", "out"], .directory), (["w", "out", "a"], .link "../kept"), (["w", "kept"], .directory),
           (["w", "kept", "mine"], .file (.text "m") false)]
        workingDirectory := ["w"] }
    temporary := .fromRoot ["s"] }

/-- A package is harvested in place of a link, which leaves alone what the link led to, and another name has no
package. -/
theorem run_harvest_collected_linked :
    (∃ host' files line,
      (harvest (.fromRoot ["s"]) (Path.ofString "out") "a" .package).run linkedHost =
          (.ok ((Path.ofString "out").child "a"), host') ∧
        host'.files = files.writeHeld line ∧
        Harvested ["s", "dist", "python", "src", "a"] ["w", "out", "a"] linkedHost.files files ∧
        files.view ["w", "kept"] = linkedHost.files.view ["w", "kept"]) ∧
      (harvest (.fromRoot ["s"]) (Path.ofString "out") "b" .package).run linkedHost =
        (.error (.generation { cause := .harvest (.outputMissing "/s/dist/python/src/b") }), linkedHost) := by
  have hs : linkedHost.files.Sound := sound_of_isSound (by decide +kernel)
  have hwork : linkedHost.files.locate .follow (.fromRoot ["s"]) = .ok ["s"] := by decide +kernel
  have hapart : ¬Below ["s"] (linkedHost.files.endOf (Path.ofString "out")) ∧
      ¬Below (linkedHost.files.endOf (Path.ofString "out")) ["s"] :=
    ⟨fun h => absurd h.1 (by decide +kernel), fun h => absurd h.1 (by decide +kernel)⟩
  constructor
  · have hplain : linkedHost.files.Plain ((Path.ofString "out").child "a") :=
      ⟨by decide +kernel, by decide +kernel, linkFree_of_isLinkFree (by decide +kernel)⟩
    obtain ⟨hreturns, -⟩ := run_harvest_collected hs (by decide) (by decide +kernel) hplain hwork
      (linkFree_of_isLinkFree (by decide +kernel)) hapart.1 hapart.2
    obtain ⟨path, hpath⟩ := exists_of_isOk (by decide +kernel :
      ((harvest (.fromRoot ["s"]) (Path.ofString "out") "a" .package).run linkedHost).1.isOk = true)
    obtain ⟨rfl, files, line, hline, hharvested, hkept⟩ := hreturns (Prod.ext hpath rfl)
    refine ⟨_, files, line, Prod.ext hpath rfl, hline, hharvested, ?_⟩
    have hlink : linkedHost.files.get? ["w", "out", "a"] = some (.link "../kept") := by decide +kernel
    exact hkept hlink (by decide +kernel) (by decide) (by decide) (by decide)
  · have hplain : linkedHost.files.Plain ((Path.ofString "out").child "b") :=
      ⟨by decide +kernel, by decide +kernel, linkFree_of_isLinkFree (by decide +kernel)⟩
    obtain ⟨-, hmissing⟩ := run_harvest_collected hs (by decide) (by decide +kernel) hplain hwork
      (linkFree_of_isLinkFree (by decide +kernel)) hapart.1 hapart.2
    obtain ⟨failure, hrun, hfailure⟩ := hmissing (by decide +kernel)
    rcases hfailure with rfl | ⟨hlong, -⟩
    · exact hrun
    · exact absurd hlong (by decide +kernel)

/-- A host where the output path leads through the place of the package and up again. -/
def roundaboutHost : Host :=
  { files :=
      { entries :=
          [(["s"], .directory), (["s", "dist"], .directory), (["s", "dist", "python"], .directory),
           (["s", "dist", "python", "src"], .directory), (["s", "dist", "python", "src", "y"], .directory),
           (["s", "dist", "python", "src", "y", "new"], .file (.text "n") false), (["x"], .directory),
           (["x", "y"], .directory)] }
    temporary := .fromRoot ["s"] }

/-- A name that has a byte too many for that of a file. -/
def longName : String :=
  String.ofList (List.replicate 256 'y')

/-- The long name is a single segment. -/
theorem segmented_longName : Text.split '/' longName = [longName] ∧ Segmented longName := by
  have hlist : longName.toList = List.replicate 256 'y' := String.toList_ofList
  have hchars : longName.toList = 'y' :: List.replicate 255 'y' := hlist.trans (List.replicate_succ ..)
  have hall : ∀ c ∈ longName.toList, c = 'y' := fun _ hc => List.eq_of_mem_replicate (hlist ▸ hc)
  have hsplit : Text.split '/' longName = [longName] :=
    Text.split_of_not_mem fun hslash => absurd (hall _ hslash) (by decide)
  have hplain : StartsPlain longName := by
    refine ⟨⟨'y', _, hchars, by decide⟩, PathFault.ofText?_eq_none_iff.2 fun c hc => ?_⟩
    rw [hall c hc]
    decide
  refine ⟨hsplit, ?_⟩
  rw [Segmented, hsplit]
  simpa using hplain

/-- The path of a package with the long name cannot be looked up. -/
theorem status_longName :
    roundaboutHost.files.status .follow (sourcePath (.fromRoot ["s"]) longName) =
      .error (.on .nameTooLong (.fromRoot (["s"] ++ packagePlace longName))) := by
  obtain ⟨hsplit, hsegmented⟩ := segmented_longName
  have hs : roundaboutHost.files.Sound := sound_of_isSound (by decide +kernel)
  have hplace : ["s"] ++ packagePlace longName = ["s", "dist", "python", "src"] ++ [longName] := by
    rw [packagePlace, hsegmented.ofString, hsplit]
    rfl
  have hproper : Proper (["s"] ++ packagePlace longName) := by
    have hwork : Proper ["s"] := by
      intro name hname
      obtain rfl := List.mem_singleton.1 hname
      decide
    exact hwork.append (proper_packagePlace hsegmented.not_mem_names)
  rw [sourcePath_of_relative _ (by rw [hsegmented.ofString])]
  show roundaboutHost.files.status .follow (.fromRoot (["s"] ++ packagePlace longName)) = _
  rw [hplace] at hproper ⊢
  refine hs.status_of_long (by decide +kernel) hproper (by decide +kernel) (PathFault.ofText?_text.2 ?_)
  intro name hname
  rcases List.mem_append.1 hname with hname | hname
  · exact (by decide : ∀ name ∈ ["s", "dist", "python", "src"], PathFault.ofText? name = none) name hname
  · exact (hsegmented name (hsplit ▸ hname)).2

/-- Not every harvest collects. Where the output path leads through the place of the package and up again, that is made
anew as a parent, and the package goes into it. Where the name is too long for a file, the harvest fails, but not for
want of the package. -/
theorem not_collected_always :
    (¬∀ (directory output path : Path) (name : String) (host host' : Host) (work out place : Location),
      host.files.Sound → host.files.held = none → directory.Written → output.Written →
      (Path.ofString name).anchor = .relative → ".." ∉ (Path.ofString name).names →
      (∀ location target, host.files.get? location ≠ some (.link target)) →
      host.files.locate .follow directory = .ok work → host.files.locate .follow output = .ok out →
      ¬Below work out → ¬Below out work →
      (harvest directory output name .package).run host = (.ok path, host') →
      host'.files.locate .follow path = .ok place →
      host'.files.view place = host.files.view (work ++ packagePlace name)) ∧
    ¬∀ (directory output : Path) (name : String) (host : Host) (work out : Location),
      host.files.Sound → host.files.held = none → directory.Written → output.Written →
      (Path.ofString name).anchor = .relative → ".." ∉ (Path.ofString name).names →
      (∀ location target, host.files.get? location ≠ some (.link target)) →
      host.files.locate .follow directory = .ok work → host.files.locate .follow output = .ok out →
      ¬Below work out → ¬Below out work →
      host.files.get? (work ++ packagePlace name) = none →
      ∃ fault, (harvest directory output name .package).run host =
        (.error (.generation { cause := .harvest fault }), host) := by
  have hs : roundaboutHost.files.Sound := sound_of_isSound (by decide +kernel)
  have hunlinked := get?_ne_link_of_isUnlinked (by decide +kernel : roundaboutHost.files.isUnlinked = true)
  have hwork : roundaboutHost.files.locate .follow (.fromRoot ["s"]) = .ok ["s"] := by decide +kernel
  have hout : ¬Below ["s"] ["x"] := fun h => absurd h.1 (by decide)
  have hin : ¬Below ["x"] ["s"] := fun h => absurd h.1 (by decide)
  constructor
  · intro hall
    obtain ⟨path, hpath⟩ := exists_of_isOk (by decide +kernel :
      ((harvest (.fromRoot ["s"]) (.fromRoot ["x", "y", ".."]) "y" .package).run roundaboutHost).1.isOk = true)
    obtain rfl : path = (Path.fromRoot ["x", "y", ".."]).child "y" := run_harvest_path (Prod.ext hpath rfl)
    have hsame := hall (.fromRoot ["s"]) (.fromRoot ["x", "y", ".."]) _ "y" roundaboutHost _ ["s"] ["x"] ["x", "y"]
      hs rfl (by decide) (by decide) (by decide +kernel) (by decide +kernel) hunlinked hwork (by decide +kernel)
      hout hin (Prod.ext hpath rfl) (by decide +kernel)
    have hnew := congrFun hsame ["new"]
    revert hnew
    decide +kernel
  · intro hall
    obtain ⟨hsplit, hsegmented⟩ := segmented_longName
    have hrelative : (Path.ofString longName).anchor = .relative := by rw [hsegmented.ofString]
    have hnone : roundaboutHost.files.get? (["s"] ++ packagePlace longName) = none := by
      rw [packagePlace, hsegmented.ofString, hsplit]
      decide +kernel
    obtain ⟨fault, hfault⟩ := hall (.fromRoot ["s"]) (.fromRoot ["x"]) longName roundaboutHost ["s"] ["x"] hs rfl
      (by decide) (by decide) hrelative hsegmented.not_mem_names hunlinked hwork (by decide +kernel) hout hin hnone
    rw [run_harvest_of_status_error status_longName] at hfault
    cases hfault

end Harvester

end ProviderBindings
