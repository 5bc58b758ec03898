import ProviderBindings.Proofs.Separation

/-!
# Staging directories come and go

What a request leaves of its work in the staging root: nothing. A request that ends before its names are worked
on (`Request.EndsEarly`) makes no staging directory and not even the staging root
(`Course.untouched_of_endsEarly`). For any other, nothing outside the output directory was touched once output
directory and staging root were made, when it ends in any way, and when a tool is asked to act but for the
new directory that the tool works in (`Course.released`).
-/

namespace ProviderBindings

open FileSystem

/-- Whether a request ends before its names are worked on: its code is saved as it is, nothing is asked for, its
language cannot be produced, its output directory does not resolve or cannot be made, or its names are
rejected. -/
def Request.EndsEarly (request : Request) (start : Host) : Prop :=
  request.language.isPrimary = true ∨ request.names = [] ∨
    (∀ harvester, Harvester.ofLanguage request.language ≠ .ok harvester) ∨
    (∀ output files, ¬Getter.Opened request start output files) ∨
    checkCollisions request.names request.language request.kind ≠ .ok ()

/-- A place that is not at, above or below the output directory of a request. -/
def Request.Beside (request : Request) (start : Host) (location : Location) : Prop :=
  ∀ {output}, (Host.resolve request.outputDirectory).run start = (.ok (.fromRoot output), start) →
    ¬location <+: output ∧ ¬output <+: location

/-- Noting something in the log touches nothing. -/
theorem Noted.untouched {p : Location → Prop} {host host' : Host} (h : Noted host host') (hs : host.files.Sound) :
    Untouched p host.files host'.files := by
  obtain ⟨line, hline⟩ := h.files
  rw [hline]
  exact hs.untouched_writeHeld line

namespace Getter

variable {g : Getter} {request : Request} {start stop : Host} {ds : List Dispatch}
  {result : Except Failure (List Path)}

/-- Whether nothing is left of a request in the staging root. Everything outside the output directory is as it was
once the output directory and the staging root were made; and when a tool was asked to act, so was everything
but the directory it was to work in, a new one in the staging root. -/
structure Released (g : Getter) (start : Host) (place : Location) (files : FileSystem)
    (ds : List Dispatch) (stop : Host) : Prop where
  /-- Everything outside the output directory is as it was. The log file may have been added to. -/
  untouched : Untouched (¬place <+: ·) (Staging.rooted g.stagingRoot files) stop.files
  /-- So it was at every dispatch, but for the working directory of the tool: a directory in the staging root, at
  the place of which nothing stood. -/
  dispatches : ∀ c ∈ ds, ∃ root name,
    (Staging.rooted g.stagingRoot files).locate .follow (g.stagingRoot.getD start.temporary) = .ok root ∧
    (Staging.rooted g.stagingRoot files).get? (root ++ [name]) = none ∧
    c.before.files.locate .follow (.ofString c.context.workingDirectory) = .ok (root ++ [name]) ∧
    c.before.files.get? (root ++ [name]) = some .directory ∧
    Untouched (fun l => ¬place <+: l ∧ ¬root ++ [name] <+: l) (Staging.rooted g.stagingRoot files)
      c.before.files

/-- A request whose names come to be worked on does not end early. -/
theorem Accepted.not_endsEarly {harvester : Harvester} {code : Emitter} {output : Path} {files : FileSystem}
    (h : Accepted g request harvester code) (hopened : Opened request start output files)
    (hl : request.language.isPrimary = false) : ¬request.EndsEarly start := by
  rintro (hprimary | hnone | hunsupported | hunopened | hrejected)
  · rw [hl] at hprimary
    cases hprimary
  · exact h.nonempty hnone
  · exact hunsupported harvester h.harvester
  · exact hunopened output files hopened
  · exact hrejected h.distinct

/-- A request whose output directory cannot be made ends early. -/
theorem endsEarly_of_unmade {output : Path} {failure : FileFailure} {files : FileSystem}
    (hresolve : (Host.resolve request.outputDirectory).run start = (.ok output, start))
    (hmake : (makeDirectories output).run start.files = (.error failure, files)) : request.EndsEarly start := by
  refine .inr (.inr (.inr (.inl fun other files' hopened => ?_)))
  cases hresolve.symm.trans hopened.resolved
  cases hmake.symm.trans hopened.made

/-- When the output directory was made as far as it could be, nothing beside it was touched. -/
theorem Apart.beside_made {place : Location} {files : FileSystem} {made : Except FileFailure Unit}
    (h : g.Apart request start) (hs : start.files.Sound) (hp : request.outputDirectory.Written)
    (hresolve : (Host.resolve request.outputDirectory).run start = (.ok (.fromRoot place), start))
    (hmake : (makeDirectories (.fromRoot place)).run start.files = (made, files)) :
    files.Sound ∧ Untouched (request.Beside start) start.files files := by
  obtain ⟨hsound, huntouched⟩ := h.untouched_made hs hp hresolve hmake
  exact ⟨hsound, huntouched.mono fun _ hl => (hl hresolve).1⟩

/-- When the output directory was made, nothing beside it was touched. -/
theorem Apart.beside_opened {output : Path} {files : FileSystem} (h : g.Apart request start)
    (hs : start.files.Sound) (hp : request.outputDirectory.Written) (hopened : Opened request start output files) :
    files.Sound ∧ Untouched (request.Beside start) start.files files := by
  obtain ⟨place, rfl, -⟩ := h.opened hs hp hopened
  exact h.beside_made hs hp hopened.resolved hopened.made

/-- Saving the code of an accepted request touches nothing beside the output directory. -/
theorem Apart.beside_saved {output root : Path} {files saved : FileSystem} {harvester : Harvester} {code : Emitter}
    {paths : Except FileFailure (List Path)} (h : g.Apart request start) (hs : start.files.Sound)
    (hp : request.outputDirectory.Written) (hopened : Opened request start output files)
    (haccepted : Accepted g request harvester code)
    (hroot : (Host.resolve output).run { start with files } = (.ok root, { start with files }))
    (hrun : (code.saveFiles root).run files = (paths, saved)) :
    saved.Sound ∧ Untouched (request.Beside start) start.files saved := by
  obtain ⟨place, rfl, hproper, -, -, hsound, hunlinked, hlocate, hthere⟩ := h.opened hs hp hopened
  obtain ⟨-, -, -, rfl, -⟩ := run_resolve_ok_iff.1 hroot
  have hresolved : files.resolve (.fromRoot place) = .fromRoot place := resolve_eq hlocate
  change (code.saveFiles (files.resolve (.fromRoot place))).run files = _ at hrun
  rw [hresolved] at hrun
  have honly := Emitter.onlyBelow_saveFiles hsound hthere hunlinked hproper
    haccepted.stageable.segmented hrun
  refine ⟨honly.sound, (h.beside_opened hs hp hopened).2.trans
    (untouched_of_get? (fun {location} hl => ?_) fun hl => ?_)⟩
  · exact honly.elsewhere (hl hopened.resolved).2
  · rwa [honly.held] at hl

/-- A request that ends early makes no staging directory and asks no tool to act, and nothing beside its output
directory was touched. -/
theorem Course.untouched_of_endsEarly (h : Course g request start ds result stop)
    (hearly : request.EndsEarly start) (hapart : g.Apart request start) (hs : start.files.Sound)
    (hp : request.outputDirectory.Written) :
    ds = [] ∧ stop.staged = start.staged ∧ Untouched (request.Beside start) start.files stop.files := by
  cases h with
  | unresolved => exact ⟨rfl, rfl, .refl _ _⟩
  | @unmade output failure files hresolve hmake =>
    obtain ⟨place, rfl, -⟩ := exists_proper_of_run_resolve hs hp hresolve
    exact ⟨rfl, rfl, (hapart.beside_made hs hp hresolve hmake).2⟩
  | unsupported hopened | rejected hopened | lost hopened => exact ⟨rfl, rfl, (hapart.beside_opened hs hp hopened).2⟩
  | idle hopened _ _ hnoted =>
    obtain ⟨hsound, huntouched⟩ := hapart.beside_opened hs hp hopened
    exact ⟨rfl, hnoted.staged, huntouched.trans (hnoted.untouched hsound)⟩
  | unsaved hopened haccepted _ hroot hrun =>
    exact ⟨rfl, rfl, (hapart.beside_saved hs hp hopened haccepted hroot hrun).2⟩
  | saved hopened haccepted _ hroot hrun hnoted =>
    obtain ⟨hsound, huntouched⟩ := hapart.beside_saved hs hp hopened haccepted hroot hrun
    exact ⟨rfl, hnoted.staged, huntouched.trans (hnoted.untouched hsound)⟩
  -- an accepted request whose names come to their turns does not end early
  | stopped hopened haccepted hl | unfinished hopened haccepted hl | finished hopened haccepted hl =>
    exact absurd hearly (haccepted.not_endsEarly hopened hl)

/-- What was staged on a site is released when the turns have passed there, and nothing outside the output directory
is touched after them. -/
theorem Released.of_passed {S : Site} {files : FileSystem} {names : List String} {middle : Host}
    (hready : S.Ready g.stagingRoot files (Staging.rooted g.stagingRoot files))
    (hpath : S.path = g.stagingRoot.getD start.temporary)
    (h : S.Passed (Staging.rooted g.stagingRoot files) { start with files } names ds middle)
    (hafter : Untouched (¬S.output <+: ·) middle.files stop.files) : g.Released start S.output files ds stop := by
  have hrootPlace := (hready.kept.locate_path S.idle_none).1
  rw [hpath] at hrootPlace
  have houtside : ∀ l, ¬S.output <+: l → S.AlwaysSpared l := fun _ => Site.alwaysSpared_of_not_isPrefix
  refine ⟨(h.spared.mono houtside).trans hafter, fun c hc => ?_⟩
  obtain ⟨d, hfree, hwhere, hbusy, hbeside⟩ := h.dispatches c hc
  refine ⟨S.root, d.name, hrootPlace, hfree, ?_, hbusy.there,
    hbeside.mono fun l hl => ⟨houtside l hl.1, hl.2⟩⟩
  rw [hwhere]
  exact hbusy.locate

/-- What comes of the turns of an accepted request: nothing could be staged and the turns failed, or they pass on a
site that is kept, and what was staged there is released if nothing outside the output directory is touched
afterwards. -/
inductive TurnsReleased (g : Getter) (start : Host) (files : FileSystem) (place : Location) (ds : List Dispatch)
    (result : Except Failure (List Path)) (stop : Host) : Prop where
  | unstaged (hfailed : ∃ failure, result = .error failure) (hreleased : g.Released start place files ds stop)
  | passed (S : Site) (houtput : S.output = place) (hkept : S.Kept (fun _ => False) stop.files)
      (hreleased : ∀ {final : Host}, Untouched (¬S.output <+: ·) stop.files final.files →
        g.Released start S.output files ds final)

/-- The turns of an accepted request release what they stage. -/
theorem Turns.released {code : Emitter} {harvester : Harvester} {output : Path} {files : FileSystem}
    (h : Turns g code request harvester output request.names { start with files } ds result stop)
    (hopened : Opened request start output files) (haccepted : Accepted g request harvester code)
    (hl : request.language.isPrimary = false) (hapart : g.Apart request start) (hs : start.files.Sound)
    (hp : request.outputDirectory.Written) (hroot : (g.stagingRoot.getD start.temporary).Written)
    (hneat : Dispatch.Neat ds) :
    harvester = .package ∧ ∃ place, output = .fromRoot place ∧
      TurnsReleased g start files place ds result stop := by
  obtain ⟨hpython, rfl⟩ := haccepted.harvester_eq hl
  obtain ⟨place, rfl, -⟩ := hapart.opened hs hp hopened
  refine ⟨rfl, place, rfl, ?_⟩
  rcases h.of_apart hapart hs hp hroot hopened hpython haccepted.nonempty haccepted.stageable.segmented hneat with
    ⟨hfailed, rfl, -, hsame⟩ | ⟨S, rfl, hpath, hready, hpassed⟩
  · exact .unstaged hfailed ⟨hsame.untouched, by simp⟩
  · exact .passed S rfl hpassed.kept fun hafter => .of_passed hready hpath hpassed hafter

/-- A request that does not end early releases what it stages. -/
theorem Course.released (h : Course g request start ds result stop) (hlate : ¬request.EndsEarly start)
    (hapart : g.Apart request start) (hs : start.files.Sound) (hp : request.outputDirectory.Written)
    (hroot : (g.stagingRoot.getD start.temporary).Written) (hneat : Dispatch.Neat ds) :
    ∃ place files, Opened request start (.fromRoot place) files ∧ g.Released start place files ds stop := by
  cases h with
  | @unresolved failure hresolve =>
    refine absurd (.inr (.inr (.inr (.inl fun output files hopened => ?_)))) hlate
    cases hresolve.symm.trans hopened.resolved
  | unmade hresolve hmake => exact absurd (endsEarly_of_unmade hresolve hmake) hlate
  | unsupported _ hunsupported =>
    refine absurd (.inr (.inr (.inl fun harvester hsupported => ?_))) hlate
    rw [hunsupported] at hsupported
    cases hsupported
  | idle _ _ hnone => exact absurd (.inr (.inl hnone)) hlate
  | rejected _ _ _ hcheck =>
    refine absurd (.inr (.inr (.inr (.inr fun hok => ?_)))) hlate
    rw [hcheck] at hok
    cases hok
  | lost _ _ hl | unsaved _ _ hl | saved _ _ hl => exact absurd (.inl hl) hlate
  | stopped hopened haccepted hl hturns =>
    obtain ⟨-, place, rfl, hend⟩ := hturns.released hopened haccepted hl hapart hs hp hroot hneat
    cases hend with
    | unstaged _ hreleased => exact ⟨place, _, hopened, hreleased⟩
    | passed S houtput _ hreleased =>
      subst houtput
      exact ⟨S.output, _, hopened, hreleased (.refl _ _)⟩
  | unfinished hopened haccepted hl hturns hfinish =>
    obtain ⟨rfl, place, rfl, hend⟩ := hturns.released hopened haccepted hl hapart hs hp hroot hneat
    cases hend with
    | unstaged hfailed => exact nomatch hfailed
    | passed S houtput _ hreleased =>
      subst houtput
      cases Harvester.finishes_of_run hfinish with
      | unmarked => exact ⟨S.output, _, hopened, hreleased (.refl _ _)⟩
  | finished hopened haccepted hl hturns hfinish =>
    obtain ⟨rfl, place, rfl, hend⟩ := hturns.released hopened haccepted hl hapart hs hp hroot hneat
    cases hend with
    | unstaged hfailed => exact nomatch hfailed
    | passed S houtput hkept hreleased =>
      subst houtput
      -- the marker that is put at the end stands in the output directory
      obtain ⟨executable, rfl⟩ := hkept.run_finalize hfinish
      refine ⟨S.output, _, hopened, hreleased ((S.untouched_put_marker _ _).mono ?_)⟩
      rintro location hl rfl
      exact hl (List.prefix_append _ _)

/-- However a request ends and whatever its tools do below the directories they work in, nothing is left of it in
the staging root, and when a tool is asked to act, no staging directory is there but the one that it works in.
A request that ends before its names are worked on makes no staging directory, nor the staging root. -/
theorem run_get_released (hg : g.IsStandard) (hp : request.outputDirectory.Written) {s : Session}
    (hs : s.host.files.Sound) (hroot : (g.stagingRoot.getD s.host.temporary).Written)
    (hapart : g.Apart request s.host) (hcs : ∀ c ∈ s.dispatchesOf (g.get request), c.Contained)
    (hlinks : ∀ c ∈ s.dispatchesOf (g.get request),
      c.context.action.adapter = CommandKind.packager.command → c.LeavesNoLink) :
    ∃ ds result t, (g.get request).run s = (result, t) ∧ t.dispatches = s.dispatches ++ ds ∧
      (request.EndsEarly s.host → ds = [] ∧ t.host.staged = s.host.staged ∧
        Untouched (request.Beside s.host) s.host.files t.host.files) ∧
      (¬request.EndsEarly s.host → ∃ place files, Opened request s.host (.fromRoot place) files ∧
        Grown s.host.files (Staging.rooted g.stagingRoot files) ∧
        g.Released s.host place files ds t.host) := by
  obtain ⟨ds, result, t, hrun, hdispatches, hcourse⟩ := run_get_course hg request s
  rw [Session.dispatchesOf_eq hrun hdispatches] at hcs hlinks
  refine ⟨ds, result, t, hrun, hdispatches,
    fun hearly => hcourse.untouched_of_endsEarly hearly hapart hs hp, fun hlate => ?_⟩
  obtain ⟨place, files, hopened, hreleased⟩ := hcourse.released hlate hapart hs hp hroot ⟨hcs, hlinks⟩
  obtain ⟨-, -, -, -, hgrown, hsound, -⟩ := hapart.opened hs hp hopened
  exact ⟨place, files, hopened, hgrown.trans (Staging.grown_rooted hsound (Staging.written_of_getD hroot)),
    hreleased⟩

/-! ## A request with tools, and one through a link -/

/-- The request for two providers does not end early. -/
theorem not_endsEarly_stocked : ¬twoNames.EndsEarly stocked.host := by
  obtain ⟨code, haccepted⟩ := isStandard_default.exists_accepted
    (rfl : Harvester.ofLanguage twoNames.language = .ok .package) (by decide)
    (isOk_iff.1 (by decide +kernel))
  exact haccepted.not_endsEarly (opened_stocked rfl) rfl

/-- Two tools are asked to act for each of two providers, and nothing is left of them in the staging root. -/
theorem run_get_released_stocked :
    ∃ ds result t place files, (({} : Getter).get twoNames).run stocked = (result, t) ∧
      ds.length = 4 ∧ Opened twoNames stocked.host (.fromRoot place) files ∧
      ({} : Getter).Released stocked.host place files ds t.host := by
  obtain ⟨ds, result, t, hrun, hdispatches, -, hlate⟩ :=
    run_get_released isStandard_default
      (by decide : twoNames.outputDirectory.Written) RunOptions.sound_bareHost
      (by decide) (apart_stocked rfl) (fun c hc => (contained_stocked hc).1)
      fun c hc _ => (contained_stocked hc).2
  obtain ⟨place, files, hopened, -, hreleased⟩ := hlate not_endsEarly_stocked
  have hlength := tidy_stocked.2
  rw [Session.dispatchesOf_eq hrun hdispatches] at hlength
  exact ⟨ds, result, t, place, files, hrun, hlength, hopened, hreleased⟩

/-- A session in which a link in the output directory leads to the staging root. -/
def linked : Session :=
  { stocked with
    host :=
      { RunOptions.bareHost with
        files :=
          { entries :=
              [(["tmp"], .directory), (["tmp", "keep"], .directory),
               (["tmp", "keep", "mine"], .file (.text "x") false), (["out"], .directory),
               (["out", "a"], .link "/tmp")] } } }

/-- A request for a module whose place is in the staging root, by way of the link. -/
def linkedRequest : Request :=
  { language := .python, outputDirectory := .fromRoot ["out"], names := ["a/keep"], kind := .module }

/-- Where a link leads from the output directory into the staging root, a request can replace what was there. -/
theorem not_kept_through_link :
    ¬∀ (g : Getter) (request : Request) (s : Session) (output root location : Location) (entry : Entry),
      g.IsStandard → request.outputDirectory.Written → s.host.files.Sound →
      (Host.resolve request.outputDirectory).run s.host = (.ok (.fromRoot output), s.host) →
      s.host.files.locate .follow (g.stagingRoot.getD s.host.temporary) = .ok root →
      ¬output <+: root → ¬root <+: output →
      (∀ c ∈ s.dispatchesOf (g.get request), c.Contained ∧ c.LeavesNoLink) →
      root <+: location → s.host.files.get? location = some entry →
      ((g.get request).run s).2.host.files.get? location = some entry := by
  intro hall
  have htidy : (linked.dispatchesOf (({} : Getter).get linkedRequest)).all Dispatch.isTidy = true := by
    decide +kernel
  have hgone : ((({} : Getter).get linkedRequest).run linked).2.host.files.get? ["tmp", "keep", "mine"] =
      none := by
    decide +kernel
  have hkept := hall {} linkedRequest linked ["out"] ["tmp"] ["tmp", "keep", "mine"]
    (.file (.text "x") false) ⟨rfl, .provider, rfl⟩ (by decide)
    (sound_of_isSound (by decide +kernel))
    (run_resolve_ok_iff.2 ⟨rfl, by decide, .inl rfl, by decide +kernel, by decide +kernel⟩)
    (by decide +kernel) (by decide) (by decide)
    (fun c hc => Dispatch.contained_of_isTidy (List.all_eq_true.1 htidy c hc)) (by decide) (by decide +kernel)
  rw [hgone] at hkept
  cases hkept

end Getter

end ProviderBindings
