import ProviderBindings.Proofs.Rounds
import ProviderBindings.Proofs.Turns

/-!
# Turns on a site

What the turns of names leave on a site. A turn makes a directory in the staging root and removes it again, so
that nothing but what its harvest may disturb was touched, and nothing at all when the name failed before
its package was to be moved (`Turn.on_site`). As the site was kept for the next name, the turns of all names
touch nothing but what some harvest may disturb (`Turns.on_site`), and every tool finds the directory it is
to work in newly made.
-/

namespace ProviderBindings

open FileSystem

/-! ## Early failures -/

/-- Whether a name failed before its package was to be moved: while it was staged, compiled or packaged, or because
there is no package. -/
def Failure.Early (failure : Failure) : Prop :=
  ∃ e, failure = .generation e ∧
    (e.stage = some "stage" ∨ e.stage = some "compile" ∨ e.stage = some "package" ∨
      ∃ path, e.cause = .harvest (.outputMissing path))

/-- It is not early to fail in a harvest for any other reason than that there is no package. -/
theorem Failure.not_early_of_faulted {fault : SystemError → HarvestFault}
    (h : ∀ reason path, fault reason ≠ .outputMissing path) (failure : FileFailure) (target : Option String) :
    ¬((Harvester.faulted fault failure).inStage target "harvest").Early := by
  rintro ⟨e, he, hearly⟩
  cases failure with
  | system reason =>
    cases he
    simp [GenerationError.stamp] at hearly
    obtain ⟨path, hpath⟩ := hearly
    exact h reason path hpath
  | unnameable problem => cases problem <;> cases he

/-! ## Turns on a site -/

namespace Site.Desk

variable {S : Site} {d : S.Desk} {root : FileSystem} {made host : Host}

/-- Whether a directory is in use on a host, and nothing beside it was touched since the staging root was made. -/
structure Used (d : S.Desk) (root : FileSystem) (made host : Host) : Prop where
  /-- The directory is in use. -/
  busy : d.Busy host.files
  /-- Nothing beside it was touched. The log file may have been added to. -/
  beside : Untouched (¬d.place <+: ·) root host.files
  /-- Temporary files go where they went. -/
  temporary : host.temporary = made.temporary
  /-- No other staging directory was made. -/
  staged : host.staged = made.staged

/-- A directory that was made is used. -/
theorem Laid.used (h : d.Laid root made.files) : d.Used root made made :=
  ⟨h.busy, h.beside, rfl, rfl⟩

/-- A directory is still used after something was written below it. -/
theorem Used.onlyBelow {files : FileSystem} (h : d.Used root made host)
    (honly : OnlyBelow d.place host.files files) : d.Used root made { host with files } := by
  refine ⟨h.busy.onlyBelow honly, h.beside.trans ?_, h.temporary, h.staged⟩
  refine untouched_of_get? (fun hl => honly.elsewhere hl) fun hl => ?_
  rwa [honly.held] at hl

/-- A tool that is asked to act in a directory finds it there. -/
theorem Used.locate {c : Dispatch} (h : d.Used root made c.before)
    (hwhere : Path.ofString c.context.workingDirectory = d.path) :
    c.before.files.locate .follow (.ofString c.context.workingDirectory) = .ok d.place := by
  rw [hwhere]
  exact h.busy.locate

/-- A directory is still used after a tool was asked to act in it that changes nothing else. -/
theorem Used.dispatched {c : Dispatch} (h : d.Used root made c.before)
    (hwhere : Path.ofString c.context.workingDirectory = d.path) (hc : c.Contained) :
    d.Used root made c.after := by
  have hconfined : c.Confined d.place := hc d.place (h.locate hwhere)
  exact ⟨h.busy.of_confined hconfined,
    h.beside.trans (hconfined.untouched.mono fun _ hl hb => hl hb.1),
    hconfined.temporary.trans h.temporary, hconfined.staged.trans h.staged⟩

/-- What is left of work for a source in a staging directory before the directory is removed. The tree is told
by that in which the directory was made. -/
structure Left (d : S.Desk) (source : String) (root : FileSystem) (made : Host)
    (ds : List Dispatch) (result : Except Failure Path) (stop : Host) : Prop where
  /-- The directory is still in use. -/
  busy : d.Busy stop.files
  /-- Temporary files go where they went. -/
  temporary : stop.temporary = made.temporary
  /-- No other staging directory was made. -/
  staged : stop.staged = made.staged
  /-- What the source spares was not touched, but for what is in the directory. -/
  spared : Untouched (fun l => S.Spared source l ∧ ¬d.place <+: l) root stop.files
  /-- If the work failed early, nothing but the directory was. -/
  early : ∀ failure, result = .error failure → failure.Early →
    Untouched (¬d.place <+: ·) root stop.files
  /-- The tools worked in the directory, and found it in use. -/
  dispatches : ∀ c ∈ ds, Path.ofString c.context.workingDirectory = d.path ∧
    d.Used root made c.before
  /-- If the work came to its end, there were two tools, and the package was moved to its place after the second. -/
  harvested : ∀ path, result = .ok path → ∃ c e files line, ds = [c, e] ∧ d.Used root made e.after ∧
    Harvester.Harvested (d.place ++ sourcePlace source) (S.output ++ placeOf source) e.after.files files ∧
    stop.files = files.writeHeld line

/-- What is left of work that failed and changed nothing beside the directory. -/
theorem Used.left {stop : Host} {ds : List Dispatch} {failure : Failure} {source : String}
    (h : d.Used root made stop)
    (hds : ∀ c ∈ ds, Path.ofString c.context.workingDirectory = d.path ∧ d.Used root made c.before) :
    d.Left source root made ds (.error failure) stop :=
  ⟨h.busy, h.temporary, h.staged, h.beside.mono fun _ hl => hl.2, fun _ _ _ => h.beside, hds, fun _ he => nomatch he⟩

/-- What holds once the packager was asked to act after the compiler: the directory is still used, no package in it is
a link, and both tools found it used. -/
structure Packaged (d : S.Desk) (root : FileSystem) (made : Host) (c e : Dispatch) : Prop where
  /-- The directory is still used. -/
  used : d.Used root made e.after
  /-- No link is where packages are made. -/
  unlinked : ∀ rest target, e.after.files.get? (d.place ++ "dist" :: rest) ≠ some (.link target)
  /-- Both tools worked in the directory, and found it used. -/
  dispatches : ∀ f ∈ [c, e], Path.ofString f.context.workingDirectory = d.path ∧ d.Used root made f.before

/-- A packager that is asked to act after the compiler, both in a directory that is used. -/
theorem Used.packaged {c e : Dispatch} {source : String} (h : d.Used root made c.before)
    (he : Getter.Packages source .python c e)
    (hwhere : ∀ f ∈ [c, e], Path.ofString f.context.workingDirectory = d.path) (hneat : Dispatch.Neat [c, e]) :
    d.Packaged root made c e := by
  obtain ⟨hwhere, hwhere'⟩ : _ ∧ _ := by simpa using hwhere
  have hmiddle : d.Used root made e.before := he.before ▸ h.dispatched hwhere (hneat.contained c (by simp))
  refine ⟨hmiddle.dispatched hwhere' (hneat.contained e (by simp)),
    hneat.unlinked e (by simp) (by rw [he.action]; rfl) d.place (hmiddle.locate hwhere'), ?_⟩
  simpa using ⟨⟨hwhere, h⟩, hwhere', hmiddle⟩

/-- What is left when the harvest of a package failed: it is only early when there is no package. -/
theorem Packaged.left_of_error {c e : Dispatch} {source : String} {failure : Failure} {stop : Host}
    (h : d.Packaged root made c e) (hsource : Segmented source) (name : String)
    (hrun : (Harvester.harvest d.path (.fromRoot S.output) (importName source) .package).run e.after =
      (.error failure, stop)) :
    d.Left source root made [c, e] (.error (failure.inStage (some name) "harvest")) stop := by
  cases Harvester.harvests_of_run hrun with
  | unseen | missing => exact h.used.left h.dispatches
  | unmoved hfound hreplace =>
    cases h.used.busy.replaces h.unlinked hsource hfound hreplace with | disturbed hdisturbed => ?_
    obtain ⟨hbusy, hspared⟩ := h.used.busy.of_disturbed h.unlinked hsource hdisturbed
    refine ⟨hbusy, h.used.temporary, h.used.staged, (h.used.beside.mono fun _ hl => hl.2).trans hspared,
      fun other he hearly => ?_, h.dispatches, fun _ he => nomatch he⟩
    obtain rfl := Except.error.inj he
    exact absurd hearly (Failure.not_early_of_faulted (by rintro _ _ ⟨⟩) _ _)

/-- What is left when a package was harvested: the log has one more line. -/
theorem Packaged.left_of_ok {c e : Dispatch} {source : String} {path : Path} {stop : Host}
    (h : d.Packaged root made c e) (hsource : Segmented source)
    (hrun : (Harvester.harvest d.path (.fromRoot S.output) (importName source) .package).run e.after =
      (.ok path, stop)) :
    d.Left source root made [c, e] (.ok path) stop := by
  cases Harvester.harvests_of_run hrun with | @moved entry files _ hfound hreplace hnoted => ?_
  cases h.used.busy.replaces h.unlinked hsource hfound hreplace with | harvested hharvested => ?_
  obtain ⟨line, hfiles⟩ := hnoted.files
  obtain ⟨hbusy, hspared⟩ := h.used.busy.of_disturbed h.unlinked hsource hharvested.disturbed
  have hbusy' : d.Busy stop.files := by
    rw [hfiles]
    exact hbusy.writeHeld line
  have hlogged : Untouched (fun l => S.Spared source l ∧ ¬d.place <+: l) files stop.files := by
    rw [hfiles]
    exact hharvested.sound.untouched_writeHeld line
  exact ⟨hbusy', hnoted.temporary.trans h.used.temporary, hnoted.staged.trans h.used.staged,
    ((h.used.beside.mono fun _ hl => hl.2).trans hspared).trans hlogged, (fun _ he => nomatch he), h.dispatches,
    fun _ _ => ⟨c, e, files, line, rfl, h.used, hharvested, hfiles⟩⟩

end Site.Desk

/-- What comes of the harvest after a dispatch of the packager: the package is at the place of its source, and whatever
stood elsewhere still does. The tree is told by an earlier one. -/
structure Site.Landed (S : Site) (source : String) (root : FileSystem) (e : Dispatch) (t : FileSystem) :
    Prop where
  /-- At the place of the source is what the packager made for it. -/
  package : ∃ work, e.before.files.locate .follow (.ofString e.context.workingDirectory) = .ok work ∧
    ∀ rest, t.get? (S.output ++ placeOf source ++ rest) =
      e.after.files.get? (work ++ Site.Desk.sourcePlace source ++ rest)
  /-- What stood elsewhere still does, if it is not the log file. -/
  kept : ∀ {location entry}, ¬S.output ++ placeOf source <+: location → root.get? location = some entry →
    root.held ≠ some location → t.get? location = some entry
  /-- No other file became the log file, and it is not in the package. -/
  log : ∀ {location}, t.held = some location →
    root.held = some location ∧ ¬S.output ++ placeOf source <+: location

/-- After a harvest the log file is where it was, neither in the package nor in its place. -/
theorem Site.Desk.Used.held_harvested {S : Site} {d : S.Desk} {root files : FileSystem} {made : Host} {e : Dispatch}
    {source : String} (hafter : d.Used root made e.after)
    (h : Harvester.Harvested (d.place ++ sourcePlace source) (S.output ++ placeOf source) e.after.files files)
    {location : Location} (hl : files.held = some location) :
    root.held = some location ∧ ¬S.output ++ placeOf source <+: location := by
  rw [h.held] at hl
  obtain ⟨other, hother, hmoved⟩ := Option.map_eq_some_iff.1 hl
  obtain ⟨hheld, hout⟩ := Option.filter_eq_some_iff.1 hother
  have hoff : ¬d.place ++ sourcePlace source <+: other :=
    fun hp => hafter.busy.log hheld ((List.prefix_append _ _).trans hp)
  rw [moved_of_not_isPrefix hoff] at hmoved
  obtain rfl : other = location := hmoved
  refine ⟨hafter.beside.held hheld, fun hp => ?_⟩
  rw [within_iff_isPrefix.2 hp] at hout
  cases hout

/-- What a harvest left beside what it took is what stood there before, up to the directories on the way to the place
of the package. -/
theorem Site.Desk.Used.kept_harvested {S : Site} {d : S.Desk} {root files : FileSystem} {made : Host} {e : Dispatch}
    {source : String} (hafter : d.Used root made e.after)
    (h : Harvester.Harvested (d.place ++ sourcePlace source) (S.output ++ placeOf source) e.after.files files)
    {location : Location} {entry : Entry} (hin : ¬d.place <+: location)
    (hout : ¬S.output ++ placeOf source <+: location) (hentry : root.get? location = some entry)
    (hheld : root.held ≠ some location) : files.get? location = some entry := by
  have hthere : e.after.files.get? location = some entry := by
    rw [hafter.beside.same hin hheld, hentry]
  by_cases hway : location <+: S.output ++ placeOf source
  · have hne : location ≠ S.output ++ placeOf source := fun he => hout (he ▸ List.prefix_refl _)
    rw [h.above hway hne, h.way hway hne hthere]
  · rw [h.kept hway hout fun hp => hin ((List.prefix_append _ _).trans hp), hthere]

/-- What was harvested from a directory has landed when the directory is removed. -/
theorem Site.Desk.landed {S : Site} {d : S.Desk} {root files t : FileSystem} {made : Host} {e : Dispatch}
    {source line : String} (hs : root.Sound) (hfree : root.get? d.place = none)
    (hbefore : d.Used root made e.before) (hafter : d.Used root made e.after)
    (hwhere : Path.ofString e.context.workingDirectory = d.path) (hsource : Segmented source)
    (h : Harvester.Harvested (d.place ++ sourcePlace source) (S.output ++ placeOf source) e.after.files files)
    (ht : Removed d.place (files.writeHeld line) t) : S.Landed source root e t := by
  -- adding to the log file and removing the directory leave everything else
  have hlast : ∀ {location}, ¬d.place <+: location → files.held ≠ some location →
      t.get? location = files.get? location := by
    intro location hl hheld
    rw [ht.kept hl]
    exact (h.sound.same_of_writeHeld line).kept hheld
  refine ⟨⟨d.place, hbefore.locate hwhere, fun rest => ?_⟩, fun {location entry} hout hentry hheld => ?_,
    fun {location} hl => ?_⟩
  · have hplace : S.output ++ placeOf source <+: S.output ++ placeOf source ++ rest := List.prefix_append _ _
    have hbeside : ¬d.place <+: S.output ++ placeOf source ++ rest := by
      rw [List.append_assoc]
      exact not_prefix_append d.apart.2 d.apart.1
    rw [hlast hbeside fun hl => (hafter.held_harvested h hl).2 hplace]
    by_cases hnameless : isNameless (S.output ++ placeOf source ++ rest)
    · have hrest : rest ≠ [] := by
        rintro rfl
        rw [List.append_nil] at hnameless
        have hproper : Proper (S.output ++ placeOf source) := S.outputProper.append hsource.proper_placeOf
        exact hproper.not_isNameless (fun he => S.output_ne_nil (List.append_eq_nil_iff.1 he).1) hnameless
      rw [get?_of_isNameless hnameless, get?_of_isNameless]
      rw [isNameless_append hrest]
      rwa [isNameless_append hrest] at hnameless
    · exact h.arrived hnameless
  · by_cases hin : d.place <+: location
    · -- nothing stood in the staging directory before it was made, but its own nameless places
      have hnameless : isNameless location := by
        by_contra hnot
        rw [hs.none_of_isPrefix hfree hin hnot] at hentry
        cases hentry
      rw [get?_of_isNameless hnameless] at hentry ⊢
      exact hentry
    · rw [hlast hin fun hl => hheld (hafter.held_harvested h hl).1]
      exact hafter.kept_harvested h hin hout hentry hheld
  · rw [ht.held] at hl
    obtain ⟨hheld, -⟩ := Option.filter_eq_some_iff.1 hl
    rw [(writeHeld_frame files line).2] at hheld
    exact hafter.held_harvested h hheld

namespace Getter

variable {g : Getter} {code : Emitter} {name source : String} {S : Site} {d : S.Desk}
  {root : FileSystem}

/-- What is left of building what is staged in a directory, when the tools change nothing but what is below the
directory and leave no links where packages are made. -/
theorem Built.on_desk {made start stop : Host} {ds : List Dispatch} {result : Except Failure Path}
    (h : g.Built .python .package (.fromRoot S.output) name source start ds result stop)
    (hsource : Segmented source) (hused : d.Used root made start)
    (hwhere : ∀ c ∈ ds, Path.ofString c.context.workingDirectory = d.path)
    (hneat : Dispatch.Neat ds) :
    d.Left source root made ds result stop := by
  cases h with
  | @compileFailed c =>
    refine (hused.dispatched (hwhere c (by simp)) (hneat.contained c (by simp))).left fun f hf => ?_
    rw [List.mem_singleton.1 hf]
    exact ⟨hwhere c (by simp), hused⟩
  | packageFailed hc hok he hfail =>
    have hpackaged := hused.packaged he hwhere hneat
    exact hpackaged.used.left hpackaged.dispatches
  | @harvestFailed c e failure stop hc hok he hok' hfail =>
    have hpackaged := hused.packaged he hwhere hneat
    unfold harvestAfter at hfail
    rw [hwhere e (by simp)] at hfail
    exact hpackaged.left_of_error hsource name hfail
  | @harvested c e path stop hc hok he hok' hharvest =>
    have hpackaged := hused.packaged he hwhere hneat
    unfold harvestAfter at hharvest
    rw [hwhere e (by simp)] at hharvest
    exact hpackaged.left_of_ok hsource hharvest

/-- What is left of work in a staging directory, when the tools change nothing but what is below the directory and
leave no links where packages are made. -/
theorem Staged.on_desk {made stop : Host} {ds : List Dispatch} {result : Except Failure Path}
    (h : Staged g code .python .package (.fromRoot S.output) name source d.path made ds result stop)
    (hcode : ∀ file ∈ code.files, Segmented file.1) (hsource : Segmented source)
    (hlaid : d.Laid root made.files) (hneat : Dispatch.Neat ds) :
    d.Left source root made ds result stop := by
  -- each step on the way changes no more than what is below the directory
  have hbusy : d.Busy made.files := hlaid.busy
  have hunlinked : made.files.Unlinked d.place := hlaid.empty.unlinked hbusy.kept.sound d.proper_place
  have hplace : ∀ {place : Path}, (Host.resolve d.path).run made = (.ok place, made) →
      place = .fromRoot d.place := by
    intro place hresolve
    obtain ⟨-, -, -, rfl, -⟩ := run_resolve_ok_iff.1 hresolve
    exact resolve_eq hbusy.locate
  cases h with
  | unresolved _ => exact hlaid.used.left (by simp)
  | unsaved hresolve hsave =>
    obtain rfl := hplace hresolve
    have honly := Emitter.onlyBelow_saveFiles hbusy.kept.sound hbusy.there hunlinked d.proper_place
      hcode hsave
    exact (hlaid.used.onlyBelow honly).left (by simp)
  | unmanifested hresolve hsave hwrite =>
    obtain rfl := hplace hresolve
    obtain ⟨honly, -⟩ := hbusy.of_saveFiles hlaid.empty hcode hsave
    obtain rfl := run_writeText_error hwrite
    exact (hlaid.used.onlyBelow honly).left (by simp)
  | built hresolve hsave hmanifest hwhere hbuilt =>
    obtain rfl := hplace hresolve
    obtain ⟨honly, -⟩ := hbusy.of_saveFiles hlaid.empty hcode hsave
    obtain ⟨honly', -⟩ := (hbusy.onlyBelow honly).of_writeManifest honly.unlinked hmanifest
    refine hbuilt.on_desk hsource (hlaid.used.onlyBelow (honly.trans honly')) (fun c hc => ?_) hneat
    rw [hwhere c hc, Path.ofString_text d.written_path]

end Getter

/-- What is left of a turn on a site. The tree is told by that in which the staging root was made. -/
structure Site.Left (S : Site) (source : String) (root : FileSystem) (start : Host)
    (ds : List Dispatch) (result : Except Failure Path) (stop : Host) : Prop where
  /-- The site was kept. -/
  kept : S.Kept (fun _ => False) stop.files
  /-- Temporary files go where they went. -/
  temporary : stop.temporary = start.temporary
  /-- At most one staging directory was made. -/
  staged : start.staged ≤ stop.staged ∧ stop.staged ≤ start.staged + 1
  /-- What the source spares was not touched. -/
  spared : Untouched (S.Spared source) root stop.files
  /-- If the turn failed early, nothing was. -/
  early : ∀ failure, result = .error failure → failure.Early →
    Untouched (fun _ => True) root stop.files
  /-- Each tool worked in a new staging directory, and nothing beside that was touched before. -/
  dispatches : ∀ c ∈ ds, ∃ d : S.Desk, root.get? d.place = none ∧
    Path.ofString c.context.workingDirectory = d.path ∧ d.Busy c.before.files ∧
    Untouched (¬d.place <+: ·) root c.before.files
  /-- If the turn came to its end, the package landed. -/
  landed : ∀ path, result = .ok path → ∃ c e, ds = [c, e] ∧ S.Landed source root e stop.files

/-- A place that every harvest spares. -/
def Site.AlwaysSpared (S : Site) (location : Location) : Prop :=
  ∀ source, Segmented source → S.Spared source location

/-- What is left of turns on a site, told by the tree in which the staging root was made. -/
structure Site.Passed (S : Site) (root : FileSystem) (start : Host) (names : List String)
    (ds : List Dispatch) (stop : Host) : Prop where
  /-- The site was kept. -/
  kept : S.Kept (fun _ => False) stop.files
  /-- Temporary files go where they went. -/
  temporary : stop.temporary = start.temporary
  /-- At most one staging directory was made for each name. -/
  staged : start.staged ≤ stop.staged ∧ stop.staged ≤ start.staged + names.length
  /-- What all sources spare was not touched. -/
  spared : Untouched S.AlwaysSpared root stop.files
  /-- Each tool worked in a new staging directory, and nothing beside that was touched before, of what all sources
  spare. -/
  dispatches : ∀ c ∈ ds, ∃ d : S.Desk, root.get? d.place = none ∧
    Path.ofString c.context.workingDirectory = d.path ∧ d.Busy c.before.files ∧
    Untouched (fun l => S.AlwaysSpared l ∧ ¬d.place <+: l) root c.before.files

/-- What is not at or below the output directory is always spared. -/
theorem Site.alwaysSpared_of_not_isPrefix {S : Site} {location : Location} (h : ¬S.output <+: location) :
    S.AlwaysSpared location :=
  fun source _ => spared_of_not_isPrefix h source

/-- A staging directory is always spared. -/
theorem Site.Desk.alwaysSpared {S : Site} (d : S.Desk) : S.AlwaysSpared d.place :=
  alwaysSpared_of_not_isPrefix d.apart.1

namespace Getter

variable {g : Getter} {code : Emitter} {S : Site} {root : FileSystem} {start stop : Host}
  {ds : List Dispatch}

/-- What a turn leaves on a site that is ready, when the tools change nothing but what is below the directory they
work in and leave no links where packages are made. -/
theorem Turn.on_site {name source : String} {result : Except Failure Path}
    (h : Turn g code .python .package (.fromRoot S.output) name source start ds result stop)
    (hcode : ∀ file ∈ code.files, Segmented file.1) (hsource : Segmented source)
    (hready : S.Ready g.stagingRoot start.files root)
    (hp : S.path = g.stagingRoot.getD start.temporary) (hneat : Dispatch.Neat ds) :
    S.Left source root start ds result stop := by
  cases h with
  | unstaged hacquire =>
    rcases hready.acquire_cases hp hacquire with ⟨failure, -, rfl⟩ | ⟨d, made, hok, -⟩
    · exact ⟨hready.kept, rfl, ⟨Nat.le_refl _, Nat.le_succ _⟩, .refl _ _, fun _ _ _ => .refl _ _,
        by simp, fun _ he => nomatch he⟩
    · cases hok
  | @staged directory made _ _ stop hacquire hstaged =>
    rcases hready.acquire_cases hp hacquire with ⟨failure, hbad, -⟩ | ⟨d, files, hok, hlaid, rfl⟩
    · cases hbad
    obtain rfl := Except.ok.inj hok
    have hleft := hstaged.on_desk hcode hsource hlaid hneat
    -- nothing stood in the place of the directory before, so that its removal restores what was there
    obtain ⟨t, hremove, hremoved, hkept⟩ := hleft.busy.run_removeTree
    have hreleased : (Staging.released d.path stop).files = t := by
      unfold Staging.released
      rw [hremove]
    have hcount : (Staging.released d.path stop).staged = start.staged + 1 := hleft.staged
    refine ⟨?_, hleft.temporary, ⟨by omega, by omega⟩, ?_, fun failure he hearly => ?_, fun c hc => ?_,
      fun path he => ?_⟩
    · rw [hreleased]
      exact hkept
    · rw [hreleased]
      exact hleft.spared.removed hready.kept.sound hlaid.free hremoved
    · have huntouched : Untouched (fun l => True ∧ ¬d.place <+: l) root stop.files :=
        (hleft.early failure he hearly).mono fun _ hl => hl.2
      rw [hreleased]
      exact huntouched.removed hready.kept.sound hlaid.free hremoved
    · obtain ⟨hwhere, hused⟩ := hleft.dispatches c hc
      exact ⟨d, hlaid.free, hwhere, hused.busy, hused.beside⟩
    · obtain ⟨c, e, harvested, line, rfl, hafter, hharvested, hstop⟩ := hleft.harvested path he
      obtain ⟨hwhere, hbefore⟩ := hleft.dispatches e (by simp)
      rw [hstop] at hremoved
      rw [hreleased]
      exact ⟨c, e, rfl, Site.Desk.landed hready.kept.sound hlaid.free hbefore hafter hwhere hsource
        hharvested hremoved⟩

/-- What a turn leaves on a site that is ready before the notice that starts it. -/
theorem Turn.on_site_of_noted {noted : Host} {name source : String} {result : Except Failure Path}
    (h : Turn g code .python .package (.fromRoot S.output) name source noted ds result stop)
    (hnoted : Noted start noted) (hcode : ∀ file ∈ code.files, Segmented file.1)
    (hsource : Segmented source) (hready : S.Ready g.stagingRoot start.files root)
    (hp : S.path = g.stagingRoot.getD start.temporary) (hneat : Dispatch.Neat ds) :
    S.Left source root start ds result stop := by
  obtain ⟨line, hline⟩ := hnoted.files
  obtain ⟨root', hready', hsame⟩ := hready.writeHeld hp line
  rw [← hline] at hready'
  have hleft := h.on_site hcode hsource hready' (by rw [hp, hnoted.temporary]) hneat
  have hstaged := hleft.staged
  rw [hnoted.staged] at hstaged
  refine ⟨hleft.kept, hleft.temporary.trans hnoted.temporary, hstaged,
    hsame.untouched.trans hleft.spared,
    fun failure he hearly => hsame.untouched.trans (hleft.early failure he hearly), fun c hc => ?_,
    fun path he => ?_⟩
  · obtain ⟨d, hfree, hwhere, hbusy, hbeside⟩ := hleft.dispatches c hc
    have hall : Untouched (fun _ => True) root root' := hsame.untouched
    exact ⟨d, (hall.get?_eq_none_iff trivial).1 hfree, hwhere, hbusy, hsame.untouched.trans hbeside⟩
  · obtain ⟨c, e, rfl, hlanded⟩ := hleft.landed path he
    refine ⟨c, e, rfl, hlanded.package, fun hout hentry hheld => ?_, fun hl => ?_⟩
    · exact hlanded.kept hout (by rw [hsame.kept hheld, hentry]) (by rwa [hsame.held])
    · obtain ⟨hheld, hout⟩ := hlanded.log hl
      exact ⟨by rwa [hsame.held] at hheld, hout⟩

/-- What turns leave on a site that is ready, when the tools change nothing but what is below the directory they
work in and leave no links where packages are made. -/
theorem Turns.on_site {request : Request} {names : List String} {result : Except Failure (List Path)}
    (hpython : request.language = .python)
    (h : Turns g code request .package (.fromRoot S.output) names start ds result stop)
    (hne : names ≠ []) (hcode : ∀ file ∈ code.files, Segmented file.1)
    (hready : S.Ready g.stagingRoot start.files root)
    (hp : S.path = g.stagingRoot.getD start.temporary) (hneat : Dispatch.Neat ds) :
    S.Passed root start names ds stop := by
  -- one turn passes with what it leaves
  have hone : ∀ {name source : String} {start stop : Host} {root : FileSystem} {ds : List Dispatch}
      {result : Except Failure Path} {rest : List String}, Segmented source →
      S.Left source root start ds result stop → S.Passed root start (name :: rest) ds stop := by
    intro name source start stop root ds result rest hsource hleft
    have hstaged := hleft.staged
    refine ⟨hleft.kept, hleft.temporary, ⟨hstaged.1, ?_⟩, hleft.spared.mono fun _ hl => hl source hsource,
      fun c hc => ?_⟩
    · rw [List.length_cons]
      omega
    · obtain ⟨d, hfree, hwhere, hbusy, hbeside⟩ := hleft.dispatches c hc
      exact ⟨d, hfree, hwhere, hbusy, hbeside.mono fun _ hl => hl.2⟩
  -- on the turns; the tree that is ready grows with each of them
  induction h generalizing root with
  | done => exact absurd rfl hne
  | stopped hc hnoted hturn =>
    rw [hpython] at hturn
    have hsource := Constraint.segmented_of_resolve hc request.kind
    exact hone hsource (hturn.on_site_of_noted hnoted hcode hsource hready hp hneat)
  | @passed name rest c start noted middle ds es path result stop hc hnoted hturn hrest ih =>
    rw [hpython] at hturn
    have hsource := Constraint.segmented_of_resolve hc request.kind
    have hleft := hturn.on_site_of_noted hnoted hcode hsource hready hp hneat.left
    by_cases hnil : rest = []
    · subst hnil
      cases hrest
      rw [List.append_nil]
      exact hone hsource hleft
    · have hp' : S.path = g.stagingRoot.getD middle.temporary := by rw [hp, hleft.temporary]
      have hlast := ih hnil (hleft.kept.ready hp') hp' hneat.right
      have hfirst : S.Passed root start [name] ds middle := hone hsource hleft
      have hcount : stop.staged ≤ start.staged + (name :: rest).length := by
        have hone := hleft.staged.2
        have hothers := hlast.staged.2
        rw [List.length_cons]
        omega
      refine ⟨hlast.kept, hlast.temporary.trans hfirst.temporary,
        ⟨hfirst.staged.1.trans hlast.staged.1, hcount⟩, hfirst.spared.trans hlast.spared, fun c hc => ?_⟩
      rcases List.mem_append.1 hc with hc | hc
      · exact hfirst.dispatches c hc
      · obtain ⟨d, hfree, hwhere, hbusy, hbeside⟩ := hlast.dispatches c hc
        refine ⟨d, ?_, hwhere, hbusy, (hfirst.spared.mono fun _ hl => hl.1).trans hbeside⟩
        exact (hfirst.spared.get?_eq_none_iff d.alwaysSpared).1 hfree

end Getter

/-! ## Finishing the output directory -/

/-- The marker is not at, below or on the way to the place of a source. -/
theorem Segmented.apart_marker {source : String} (h : Segmented source) :
    ¬placeOf source <+: [Harvester.markerName] ∧ ¬[Harvester.markerName] <+: placeOf source := by
  have hnot : Harvester.markerName ∉ placeOf source :=
    fun hmem => absurd (h.startsPlain_of_mem_placeOf hmem) (by decide)
  refine ⟨fun hp => ?_, fun hp => hnot (hp.subset (by simp))⟩
  rcases List.prefix_cons_iff.1 hp with hnil | ⟨rest, hcons, -⟩
  · exact h.placeOf_ne_nil hnil
  · exact hnot (by simp [hcons])

namespace Site

variable {S : Site} {host host' : Host}

/-- Where the file goes that makes the output directory importable. -/
def marker (S : Site) : Location :=
  S.output ++ [Harvester.markerName]

/-- The place of the marker is proper. -/
theorem proper_marker (S : Site) : Proper S.marker := by
  refine S.outputProper.append fun name hmem => ?_
  rw [List.mem_singleton.1 hmem]
  decide

/-- The marker is always spared. -/
theorem alwaysSpared_marker (S : Site) : S.AlwaysSpared S.marker := by
  intro source hsource
  obtain ⟨hin, hway⟩ := hsource.apart_marker
  exact ⟨fun hp => hin ((List.prefix_append_right_inj _).1 hp),
    fun hp => absurd ((List.prefix_append_right_inj _).1 hp) hway⟩

/-- On a site the marker that finishes the output directory is put in its place. -/
theorem Kept.run_finalize (h : S.Kept (fun _ => False) host.files)
    (hrun : (Harvester.package.finalize (.fromRoot S.output)).run host = (.ok (), host')) :
    ∃ executable, host' =
      { host with files := host.files.put S.marker (.file (.text "") executable) } := by
  cases Harvester.finishes_of_run hrun with | marked hwrite => ?_
  have hname : Path.IsName Harvester.markerName := by decide
  have hchild : (Path.fromRoot S.output).child Harvester.markerName = .fromRoot S.marker :=
    Path.child_of_isName _ hname
  rw [hchild] at hwrite
  obtain ⟨-, place, hlocate, -, rfl⟩ := run_writeText_ok_iff.1 hwrite
  obtain ⟨rfl, -⟩ := locate_fromRoot_inv hlocate S.proper_marker (h.unlinked.linkFree _)
  exact ⟨_, rfl⟩

/-- What is put in the place of the marker touches nothing else. -/
theorem untouched_put_marker (S : Site) (fs : FileSystem) (entry : Entry) :
    Untouched (· ≠ S.marker) fs (fs.put S.marker entry) := by
  have hname : ¬isNameless S.marker := S.proper_marker.not_isNameless (by simp [marker])
  refine untouched_of_get? (fun {location} hl => ?_) id
  rw [get?_put _ _ hname, if_neg fun he => hl he.symm]

end Site

end ProviderBindings
