import ProviderBindings.Proofs.Separation

/-!
# What requests that fail leave in the output directory

A request that fails leaves the marker of its output directory as it was (`Course.untouched_marker`): no harvest
comes near it, and it is written last of all. If it fails on a name before the package of that name was to be
moved, what is in the output directory is what was there when the turn of the name began
(`Turns.untouched_of_early`), since all of the turn but its harvest goes on in the staging root.
-/

namespace ProviderBindings

open FileSystem

namespace Getter

variable {g : Getter} {request : Request} {start stop middle : Host} {files : FileSystem}
  {place : Location} {ds : List Dispatch}

/-- Whether nothing comes to be in the output directory of a request when its staging root is made. -/
def SparesOutput (g : Getter) (request : Request) (start : Host) : Prop :=
  ∀ {output : Location} {files : FileSystem}, Opened request start (.fromRoot output) files →
    ∀ {location}, Below output location →
      (Staging.rooted g.stagingRoot files).get? location = files.get? location

/-- When nothing comes to be in the output directory, making the staging root leaves it untouched. -/
theorem SparesOutput.untouched (hspares : g.SparesOutput request start) (hapart : g.Apart request start)
    (hs : start.files.Sound) (hp : request.outputDirectory.Written)
    (hroot : (g.stagingRoot.getD start.temporary).Written)
    (hopened : Opened request start (.fromRoot place) files) :
    Untouched (place <+: ·) files (Staging.rooted g.stagingRoot files) := by
  obtain ⟨other, hplace, -, -, -, hsound, -, -, hthere⟩ := hapart.opened hs hp hopened
  obtain rfl : place = other := congrArg Path.names hplace
  have hgrown : Grown files (Staging.rooted g.stagingRoot files) :=
    Staging.grown_rooted hsound (Staging.written_of_getD hroot)
  refine untouched_of_get? (fun {location} hl => ?_) fun hl => by rwa [hgrown.held] at hl
  by_cases he : location = place
  · rw [he, hthere, hgrown.kept hthere]
  · exact hspares hopened ⟨hl, he⟩

/-- When the turn of a name fails early, after those of the names before it, what is in the output directory is what
was there before its turn. -/
theorem Turns.untouched_of_early {code : Emitter} {front : List String} {name source : String}
    {paths : List Path} {es : List Dispatch} {noted : Host} {failure : Failure}
    (hturns : Turns g code request .package (.fromRoot place) front { start with files } ds (.ok paths)
      middle)
    (hnoted : Noted middle noted)
    (hturn : Turn g code .python .package (.fromRoot place) name source noted es (.error failure) stop)
    (hearly : failure.Early) (hspares : g.SparesOutput request start) (hapart : g.Apart request start)
    (hs : start.files.Sound) (hp : request.outputDirectory.Written)
    (hroot : (g.stagingRoot.getD start.temporary).Written)
    (hopened : Opened request start (.fromRoot place) files) (hpython : request.language = .python)
    (hcode : ∀ file ∈ code.files, Segmented file.1) (hsource : Segmented source)
    (hneat : Dispatch.Neat (ds ++ es)) :
    Untouched (place <+: ·) middle.files stop.files := by
  have hall : ∀ {l : Location}, place <+: l → (fun _ : Location => True) l := fun _ => trivial
  by_cases hnil : front = []
  · -- the first turn makes the staging root, which spares the output directory
    subst hnil
    cases hturns
    have hspared := hspares.untouched hapart hs hp hroot hopened
    cases hturn with
    | unstaged hacquire =>
      obtain ⟨line, hline⟩ := hnoted.files
      obtain ⟨-, -, -, -, -, hsound, -⟩ := hapart.opened hs hp hopened
      have hsame := Staging.rooted_same (Staging.written_of_getD hroot) (hsound.same_of_writeHeld line)
      rw [← hline] at hsame
      rw [Staging.run_acquire_error hacquire]
      exact hspared.trans hsame.untouched
    | staged hacquire hstaged =>
      obtain ⟨S, rfl, hpath, hready⟩ := hapart.exists_site hs hp hroot hopened hnoted hacquire
      have hleft := (Turn.staged hacquire hstaged).on_site_of_noted hnoted hcode hsource hready hpath
        hneat.right
      exact hspared.trans ((hleft.early failure rfl hearly).mono fun _ hl => hall hl)
  · rcases hturns.of_apart hapart hs hp hroot hopened hpython hnil hcode
      hneat.left with ⟨⟨_, hbad⟩, -⟩ | ⟨S, rfl, hpath, -, hpassed⟩
    · cases hbad
    · have hpath' : S.path = g.stagingRoot.getD middle.temporary := by rw [hpath, hpassed.temporary]
      have hleft := hturn.on_site_of_noted hnoted hcode hsource (hpassed.kept.ready hpath') hpath' hneat.right
      exact (hleft.early failure rfl hearly).mono fun _ hl => hall hl

/-- Turns leave the marker of the output directory as it was. -/
theorem Turns.untouched_marker {code : Emitter} {names : List String}
    {result : Except Failure (List Path)}
    (hturns : Turns g code request .package (.fromRoot place) names { start with files } ds result stop)
    (hne : names ≠ []) (hspares : g.SparesOutput request start) (hapart : g.Apart request start)
    (hs : start.files.Sound) (hp : request.outputDirectory.Written)
    (hroot : (g.stagingRoot.getD start.temporary).Written)
    (hopened : Opened request start (.fromRoot place) files) (hpython : request.language = .python)
    (hcode : ∀ file ∈ code.files, Segmented file.1) (hneat : Dispatch.Neat ds) :
    Untouched (· = place ++ [Harvester.markerName]) start.files stop.files := by
  have hmade : Untouched (· = place ++ [Harvester.markerName]) start.files files := by
    refine (hapart.untouched_made hs hp hopened.resolved hopened.made).2.mono ?_
    rintro location rfl
    exact not_append_isPrefix (by simp)
  have hrooted : Untouched (· = place ++ [Harvester.markerName]) files
      (Staging.rooted g.stagingRoot files) := by
    refine (hspares.untouched hapart hs hp hroot hopened).mono ?_
    rintro location rfl
    exact List.prefix_append _ _
  refine (hmade.trans hrooted).trans ?_
  rcases hturns.of_apart hapart hs hp hroot hopened hpython hne hcode hneat with
    ⟨-, -, -, hsame⟩ | ⟨S, rfl, -, -, hpassed⟩
  · exact hsame.untouched
  · refine hpassed.spared.mono ?_
    rintro location rfl
    exact S.alwaysSpared_marker

/-- A request that is not saved as it is leaves the marker of its output directory as it was when it fails. -/
theorem Course.untouched_marker {failure : Failure} (h : Course g request start ds (.error failure) stop)
    (hl : request.language.isPrimary = false) (hspares : g.SparesOutput request start)
    (hapart : g.Apart request start) (hs : start.files.Sound) (hp : request.outputDirectory.Written)
    (hroot : (g.stagingRoot.getD start.temporary).Written) (hneat : Dispatch.Neat ds)
    (hresolve : (Host.resolve request.outputDirectory).run start = (.ok (.fromRoot place), start)) :
    Untouched (· = place ++ [Harvester.markerName]) start.files stop.files := by
  -- making the output directory stops above the marker
  have hmade : ∀ {output files} {result : Except FileFailure Unit},
      (Host.resolve request.outputDirectory).run start = (.ok output, start) →
      (makeDirectories output).run start.files = (result, files) →
      Untouched (· = place ++ [Harvester.markerName]) start.files files := by
    intro output files result hresolve' hmake
    have hsame := hresolve.symm.trans hresolve'
    cases hsame
    refine (hapart.untouched_made hs hp hresolve hmake).2.mono ?_
    rintro location rfl
    exact not_append_isPrefix (by simp)
  -- the turns do not come near it either
  have hturned : ∀ {output files harvester code result stop}, Opened request start output files →
      Accepted g request harvester code →
      Turns g code request harvester output request.names { start with files } ds result stop →
      harvester = .package ∧ output = .fromRoot place ∧
        Untouched (· = place ++ [Harvester.markerName]) start.files stop.files := by
    intro output files harvester code result stop hopened haccepted hturns
    have hsame := hresolve.symm.trans hopened.resolved
    cases hsame
    obtain ⟨hpython, rfl⟩ := haccepted.harvester_eq hl
    exact ⟨rfl, rfl, hturns.untouched_marker haccepted.nonempty hspares hapart hs hp hroot hopened hpython
      haccepted.stageable.segmented hneat⟩
  cases h with
  | unresolved => exact .refl _ _
  | unmade hresolve' hmake => exact hmade hresolve' hmake
  | unsupported hopened | rejected hopened => exact hmade hopened.resolved hopened.made
  | lost _ _ hprimary | unsaved _ _ hprimary =>
    rw [hl] at hprimary
    cases hprimary
  | stopped hopened haccepted _ hturns => exact (hturned hopened haccepted hturns).2.2
  | unfinished hopened haccepted _ hturns hfinish =>
    obtain ⟨rfl, rfl, huntouched⟩ := hturned hopened haccepted hturns
    cases Harvester.finishes_of_run hfinish with | unmarked => exact huntouched

/-- Whether the building of some names of a request came to an end, on the session that it left. -/
def BuiltTo (g : Getter) (request : Request) (code : Emitter) (place : Location) (names : List String)
    (s u : Session) : Prop :=
  ∃ paths, (names.mapM (g.buildOne code request .package (.fromRoot place))).run s = (.ok paths, u)

/-- The turns of names that were built. -/
theorem BuiltTo.turns {code : Emitter} {names : List String} {cs : List Constraint} {s u : Session}
    (h : g.BuiltTo request code place names s u) (hclosed : code.current = none)
    (hcs : names.map Constraint.resolve = cs.map .ok) :
    ∃ ds paths, u.dispatches = s.dispatches ++ ds ∧
      Turns g code request .package (.fromRoot place) names s.host ds (.ok paths) u.host := by
  obtain ⟨paths, hpaths⟩ := h
  obtain ⟨ds, result, t, hrun, hdispatches, hturns⟩ := run_mapM_buildOne_turns g request .package
    (.fromRoot place) hclosed hcs s
  rw [hpaths] at hrun
  cases hrun
  exact ⟨ds, paths, hdispatches, hturns⟩

/-- When a request fails early, it fails on a name after the names before it were built, and what is in the output
directory is what they left there. -/
theorem run_get_early {code : Emitter} {s t : Session} {failure : Failure}
    (hrun : (g.get request).run s = (.error failure, t)) (hearly : failure.Early)
    (hopened : Opened request s.host (.fromRoot place) files)
    (haccepted : Accepted g request .package code) (hl : request.language.isPrimary = false)
    (hspares : g.SparesOutput request s.host) (hapart : g.Apart request s.host)
    (hs : s.host.files.Sound) (hp : request.outputDirectory.Written)
    (hroot : (g.stagingRoot.getD s.host.temporary).Written)
    (hneat : Dispatch.Neat (s.dispatchesOf (g.get request))) :
    ∃ k name u, request.names[k]? = some name ∧
      g.BuiltTo request code place (request.names.take k) { s with host := { s.host with files } } u ∧
      (g.buildOne code request .package (.fromRoot place) name).run u = (.error failure, t) ∧
      Untouched (place <+: ·) u.host.files t.host.files := by
  obtain ⟨cs, hresolved, -⟩ := haccepted.exists_constraints
  have hclosed := haccepted.stageable.closed
  have hproduce := run_get_of_accepted hopened haccepted
  rw [hrun] at hproduce
  cases builds_of_run hl hproduce.symm with
  | stopped hall =>
    obtain ⟨k, name, u, paths, hname, htake, hone⟩ := run_mapM_error hall
    refine ⟨k, name, u, hname, ⟨paths, htake⟩, hone, ?_⟩
    -- the turns of the names before, and the one that fails
    have hresolvedTake : (request.names.take k).map Constraint.resolve = (cs.take k).map .ok := by
      rw [List.map_take, hresolved, List.map_take]
    obtain ⟨c, hc⟩ : ∃ c, Constraint.resolve name = .ok c := by
      have hget := congrArg (·[k]?) hresolved
      simp only [List.getElem?_map, hname, Option.map_some] at hget
      obtain ⟨c, -, hc⟩ := Option.map_eq_some_iff.1 hget.symm
      exact ⟨c, hc.symm⟩
    obtain ⟨ds, paths', hds, hturns⟩ := BuiltTo.turns ⟨paths, htake⟩ hclosed hresolvedTake
    obtain ⟨noted, es, result, t', hnoted, hone', hes, hturn⟩ :=
      run_buildOne_turn g request .package (.fromRoot place) hclosed hc u
    rw [hone] at hone'
    cases hone'
    have hdispatches : t.dispatches = s.dispatches ++ (ds ++ es) := by
      rw [hes, hds, List.append_assoc]
    rw [Session.dispatchesOf_eq hrun hdispatches] at hneat
    obtain ⟨hpython, -⟩ := haccepted.harvester_eq hl
    rw [hpython] at hturn
    exact hturns.untouched_of_early hnoted hturn hearly hspares hapart hs hp hroot hopened hpython
      haccepted.stageable.segmented (Constraint.segmented_of_resolve hc request.kind) hneat
  | unfinished _ hfinish =>
    -- it is too late for that when the output directory is finished
    cases Harvester.finishes_of_run hfinish with | unmarked => ?_
    exact absurd hearly (Failure.not_early_of_faulted (by rintro _ _ ⟨⟩) _ _)

/-- When a request succeeds, its names were built, and the marker of the output directory is empty then, after it had
been left as it was until all names were built. -/
theorem run_get_marked {code : Emitter} {s t : Session} {paths : List Path}
    (hrun : (g.get request).run s = (.ok paths, t)) (hopened : Opened request s.host (.fromRoot place) files)
    (haccepted : Accepted g request .package code) (hl : request.language.isPrimary = false)
    (hspares : g.SparesOutput request s.host) (hapart : g.Apart request s.host)
    (hs : s.host.files.Sound) (hp : request.outputDirectory.Written)
    (hroot : (g.stagingRoot.getD s.host.temporary).Written)
    (hneat : Dispatch.Neat (s.dispatchesOf (g.get request))) :
    ∃ u executable,
      g.BuiltTo request code place request.names { s with host := { s.host with files } } u ∧
      Untouched (· = place ++ [Harvester.markerName]) s.host.files u.host.files ∧
      t.host.files.get? (place ++ [Harvester.markerName]) = some (.file (.text "") executable) := by
  obtain ⟨cs, hresolved, -⟩ := haccepted.exists_constraints
  have hproduce := run_get_of_accepted hopened haccepted
  rw [hrun] at hproduce
  cases builds_of_run hl hproduce.symm with
  | @finished _ u host hall hfinish =>
    obtain ⟨ds, paths', hds, hturns⟩ := BuiltTo.turns ⟨_, hall⟩ haccepted.stageable.closed hresolved
    rw [Session.dispatchesOf_eq hrun hds] at hneat
    obtain ⟨hpython, -⟩ := haccepted.harvester_eq hl
    have hcode := haccepted.stageable.segmented
    have huntouched := hturns.untouched_marker haccepted.nonempty hspares hapart hs hp hroot hopened hpython
      hcode hneat
    rcases hturns.of_apart hapart hs hp hroot hopened hpython haccepted.nonempty hcode hneat with
      ⟨⟨_, hbad⟩, -⟩ | ⟨S, rfl, -, -, hpassed⟩
    · cases hbad
    · obtain ⟨executable, rfl⟩ := hpassed.kept.run_finalize hfinish
      refine ⟨u, executable, ⟨_, hall⟩, huntouched, ?_⟩
      show (u.host.files.put S.marker _).get? S.marker = _
      rw [get?_put _ _ (S.proper_marker.not_isNameless (by simp [Site.marker])), if_pos rfl]

/-- What a request leaves in the output directory, whatever its tools do below the directories they work in. If it
fails, the marker is as it was. If it fails on a name before the package of that name was to be moved, what is
in the output directory is what building the names before it left there. The marker is written, and empty,
when all names were built. A log file that is open may have been added to, wherever it lies. -/
theorem run_get_spares_output (hg : g.IsStandard) (hp : request.outputDirectory.Written) {s : Session}
    (hs : s.host.files.Sound) (hroot : (g.stagingRoot.getD s.host.temporary).Written)
    (hapart : g.Apart request s.host) (hspares : g.SparesOutput request s.host)
    (hl : request.language.isPrimary = false)
    (hcs : ∀ c ∈ s.dispatchesOf (g.get request), c.Contained)
    (hlinks : ∀ c ∈ s.dispatchesOf (g.get request),
      c.context.action.adapter = CommandKind.packager.command → c.LeavesNoLink) :
    ∃ result t, (g.get request).run s = (result, t) ∧
      (∀ {failure place}, result = .error failure →
        (Host.resolve request.outputDirectory).run s.host = (.ok (.fromRoot place), s.host) →
        Untouched (· = place ++ [Harvester.markerName]) s.host.files t.host.files) ∧
      ∀ {place files code}, Opened request s.host (.fromRoot place) files →
        Accepted g request .package code →
        (∀ failure, result = .error failure → failure.Early →
          ∃ k name u, request.names[k]? = some name ∧
            g.BuiltTo request code place (request.names.take k) { s with host := { s.host with files } } u ∧
            (g.buildOne code request .package (.fromRoot place) name).run u = (.error failure, t) ∧
            Untouched (place <+: ·) u.host.files t.host.files) ∧
        ∀ paths, result = .ok paths →
          ∃ u executable,
            g.BuiltTo request code place request.names { s with host := { s.host with files } } u ∧
            Untouched (· = place ++ [Harvester.markerName]) s.host.files u.host.files ∧
            t.host.files.get? (place ++ [Harvester.markerName]) = some (.file (.text "") executable) := by
  obtain ⟨ds, result, t, hrun, hdispatches, hcourse⟩ := run_get_course hg request s
  refine ⟨result, t, hrun, fun {failure place} he hresolve => ?_, fun hopened haccepted =>
    ⟨fun failure he hearly => ?_, fun paths he => ?_⟩⟩
  · subst he
    rw [Session.dispatchesOf_eq hrun hdispatches] at hcs hlinks
    exact hcourse.untouched_marker hl hspares hapart hs hp hroot ⟨hcs, hlinks⟩ hresolve
  · subst he
    exact run_get_early hrun hearly hopened haccepted hl hspares hapart hs hp hroot ⟨hcs, hlinks⟩
  · subst he
    exact run_get_marked hrun hopened haccepted hl hspares hapart hs hp hroot ⟨hcs, hlinks⟩

/-! ## A request that fails on its second name, and one that makes its staging root in the output directory -/

/-- An outcome that failed in the stage of the compiler failed early. -/
theorem exists_early_of_stageOf {α : Type} {outcome : Except Failure α × Session}
    (h : stageOf outcome = some "compile") : ∃ failure, outcome.1 = .error failure ∧ failure.Early := by
  rcases outcome with ⟨failure | a, t⟩
  · cases failure with
    | generation e => exact ⟨_, rfl, e, rfl, .inr (.inl h)⟩
    | _ => cases h
  · cases h

/-- A session in which the compiler refuses the second name. -/
def refusing : Session :=
  { stocked with
    registry := stocked.registry.insert (.standIn { name := "jsii", failures := [("b", "no")] }) }

/-- The tools of the request for two providers keep to their directories, and the compiler fails. -/
theorem outcome_refusing :
    (refusing.dispatchesOf (({} : Getter).get twoNames)).all Dispatch.isTidy = true ∧
      stageOf ((({} : Getter).get twoNames).run refusing) = some "compile" := by
  decide +kernel

/-- Where the compiler refuses a name, the output directory is left as the names before it left it. -/
theorem run_get_spares_output_refusing :
    ∃ failure t code k name u, (({} : Getter).get twoNames).run refusing = (.error failure, t) ∧
      twoNames.names[k]? = some name ∧
      ({} : Getter).BuiltTo twoNames code ["out"] (twoNames.names.take k)
        { refusing with
          host :=
            { refusing.host with
              files := ((makeDirectories (.fromRoot ["out"])).run refusing.host.files).2 } } u ∧
      Untouched (["out"] <+: ·) u.host.files t.host.files := by
  have htools : ∀ {c}, c ∈ refusing.dispatchesOf (({} : Getter).get twoNames) → c.Contained ∧ c.LeavesNoLink :=
    fun hc => Dispatch.contained_of_isTidy (List.all_eq_true.1 outcome_refusing.1 _ hc)
  have hspares : ({} : Getter).SparesOutput twoNames refusing.host := by
    intro _ _ _ _ _
    rfl
  obtain ⟨failure, hfailure, hearly⟩ := exists_early_of_stageOf outcome_refusing.2
  obtain ⟨code, haccepted⟩ := isStandard_default.exists_accepted
    (rfl : Harvester.ofLanguage twoNames.language = .ok .package) (by decide) (isOk_iff.1 (by decide +kernel))
  obtain ⟨result, t, hrun, -, hends⟩ :=
    run_get_spares_output isStandard_default
      (by decide : twoNames.outputDirectory.Written) (s := refusing) RunOptions.sound_bareHost (by decide)
      (apart_stocked rfl) hspares rfl (fun c hc => (htools hc).1) fun c hc _ => (htools hc).2
  rw [hrun] at hfailure
  obtain rfl : result = .error failure := hfailure
  obtain ⟨k, name, u, hname, hbuilt, -, huntouched⟩ :=
    (hends (opened_stocked rfl) haccepted).1 failure rfl hearly
  exact ⟨failure, t, code, k, name, u, hrun, hname, hbuilt, huntouched⟩

/-- A getter whose staging root is reached by way of a directory in the output directory. -/
def roundabout : Getter := { stagingRoot := Path.ofString "/out/new/../../stage" }

/-- Where the staging root is reached by way of a directory that is missing in the output directory, that directory
is left there when the first name fails. -/
theorem not_spares_output_roundabout :
    ¬∀ (g : Getter) (request : Request) (s t : Session) (place root : Location) (files : FileSystem)
      (code : Emitter) (failure : Failure),
      g.IsStandard → request.outputDirectory.Written → s.host.files.Sound →
      Opened request s.host (.fromRoot place) files → Accepted g request .package code →
      (Staging.rooted g.stagingRoot files).locate .follow (g.stagingRoot.getD s.host.temporary) = .ok root →
      ¬place <+: root → ¬root <+: place →
      (∀ c ∈ s.dispatchesOf (g.get request), c.Contained ∧ c.LeavesNoLink) →
      (g.get request).run s = (.error failure, t) → failure.Early → request.names.length = 1 →
      Untouched (place <+: ·) files t.host.files := by
  intro hall
  have hshape : (toolless.dispatchesOf (roundabout.get pythonRequest)).all Dispatch.isTidy = true ∧
      stageOf ((roundabout.get pythonRequest).run toolless) = some "compile" ∧
      ((roundabout.get pythonRequest).run toolless).2.host.files.get? ["out", "new"] = some .directory ∧
      ((makeDirectories (.fromRoot ["out"])).run toolless.host.files).2.get? ["out", "new"] = none := by
    decide +kernel
  obtain ⟨htidy, hstage, hnew, hmissing⟩ := hshape
  obtain ⟨failure, hfailure, hearly⟩ := exists_early_of_stageOf hstage
  have hg : roundabout.IsStandard := ⟨rfl, .provider, rfl⟩
  obtain ⟨code, haccepted⟩ := hg.exists_accepted
    (rfl : Harvester.ofLanguage pythonRequest.language = .ok .package) (by decide)
    (isOk_iff.1 (by decide +kernel))
  have hopened : Opened pythonRequest toolless.host (.fromRoot ["out"])
      ((makeDirectories (.fromRoot ["out"])).run toolless.host.files).2 := by
    refine ⟨?_, Prod.ext (by decide +kernel) rfl⟩
    exact run_resolve_ok_iff.2 ⟨rfl, by decide, .inl rfl, by decide +kernel, by decide +kernel⟩
  have huntouched := hall roundabout pythonRequest toolless _ ["out"] ["stage"] _ code failure
    hg (by decide) (sound_of_isSound (by decide +kernel)) hopened haccepted
    (by decide +kernel) (by decide) (by decide)
    (fun c hc => Dispatch.contained_of_isTidy (List.all_eq_true.1 htidy c hc)) (Prod.ext hfailure rfl) hearly rfl
  have hsame := huntouched.shape (by decide : ["out"] <+: ["out", "new"])
  unfold shapeAt at hsame
  rw [hnew, hmissing] at hsame
  cases hsame

end Getter

end ProviderBindings
