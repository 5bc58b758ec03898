import ProviderBindings.Proofs.Separation

/-!
# What becomes of packages

Each harvest puts a package in the place of its source, and removes what stood at and below that place before. So
the package of a name is there when the request ends but for what is at or below the place of a later name
(`Turns.packages_stand`). The check for collisions does not keep names that far apart: it rejects two names with
one place, and not a name whose place is above that of another.
-/

namespace ProviderBindings

open FileSystem

/-- Whether the packager left an entry in the package for a source. -/
def Dispatch.Leaves (e : Dispatch) (source : String) (rest : Location) (entry : Entry) : Prop :=
  ∃ work, e.before.files.locate .follow (.ofString e.context.workingDirectory) = .ok work ∧
    e.after.files.get? (work ++ Site.Desk.sourcePlace source ++ rest) = some entry

/-- What the packager left stands in the place of the source when the package has landed. -/
theorem Site.Landed.stands {S : Site} {source : String} {root t : FileSystem} {e : Dispatch} {rest : Location}
    {entry : Entry} (h : S.Landed source root e t) (he : e.Leaves source rest entry) :
    t.get? (S.output ++ placeOf source ++ rest) = some entry ∧
      t.held ≠ some (S.output ++ placeOf source ++ rest) := by
  obtain ⟨work, hwork, hpackage⟩ := h.package
  obtain ⟨work', hwork', hentry⟩ := he
  obtain rfl : work = work' := Except.ok.inj (hwork.symm.trans hwork')
  refine ⟨(hpackage rest).trans hentry, fun hl => ?_⟩
  exact (h.log hl).2 (List.prefix_append _ _)

namespace Getter

variable {g : Getter} {request : Request} {code : Emitter} {S : Site} {root : FileSystem}
  {start stop : Host} {ds : List Dispatch}

/-- What comes to its end is built by the compiler and the packager. -/
theorem Built.packages {language : Language} {harvester : Harvester} {output path : Path} {name source : String}
    (h : Built g language harvester output name source start ds (.ok path) stop) :
    ∃ d e, ds = [d, e] ∧ Packages source language d e := by
  cases h with
  | harvested hd hok he hok' hharvest => exact ⟨_, _, rfl, he⟩

/-- A turn that comes to its end asked the compiler and the packager to act. -/
theorem Turn.packages {language : Language} {harvester : Harvester} {output path : Path} {name source : String}
    (h : Turn g code language harvester output name source start ds (.ok path) stop) :
    ∃ d e, ds = [d, e] ∧ Packages source language d e := by
  cases h with
  | staged hacquire hstaged =>
    cases hstaged with
    | built hresolve hsave hmanifest hwhere hbuilt => exact hbuilt.packages

/-- What is not at or below the place of any of the names stands when their turns have come to their ends. -/
theorem Turns.keeps {names : List String} {result : Except Failure (List Path)} {paths : List Path}
    (h : Turns g code request .package (.fromRoot S.output) names start ds result stop)
    (hok : result = .ok paths) (hpython : request.language = .python)
    (hcode : ∀ file ∈ code.files, Segmented file.1) (hkept : S.Kept (fun _ => False) start.files)
    (hp : S.path = g.stagingRoot.getD start.temporary) (hneat : Dispatch.Neat ds)
    {location : Location} {entry : Entry}
    (hout : ∀ name ∈ names, ∀ c, Constraint.resolve name = .ok c →
      ¬S.output ++ placeOf (c.source request.kind) <+: location)
    (hthere : start.files.get? location = some entry) (hlog : start.files.held ≠ some location) :
    stop.files.get? location = some entry := by
  induction h generalizing paths with
  | done => exact hthere
  | stopped => cases hok
  | @passed name rest c start noted middle ds es path result stop hc hnoted hturn hrest ih =>
    cases result with
    | error failure => cases hok
    | ok others =>
      rw [hpython] at hturn
      have hleft := hturn.on_site_of_noted hnoted hcode (Constraint.segmented_of_resolve hc request.kind)
        (hkept.ready hp) hp hneat.left
      obtain ⟨d, e, rfl, hlanded⟩ := hleft.landed path rfl
      have hmiddle : middle.files.get? location = some entry :=
        hlanded.kept (hout name (by simp) c hc) hthere hlog
      refine ih rfl hleft.kept (by rw [hp, hleft.temporary]) hneat.right
        (fun other hmem => hout other (List.mem_cons_of_mem _ hmem)) hmiddle fun hl => ?_
      exact hlog (hlanded.log hl).1

/-- Whether the packages of names stand in an output directory: what the packager left for a name is in the place of
its source, unless it is at or below the place of a later name. -/
def PackagesStand (request : Request) (output : Location) (names : List String) (ds : List Dispatch)
    (fs : FileSystem) : Prop :=
  ∀ i name c, names[i]? = some name → Constraint.resolve name = .ok c →
    ∃ e, ds[2 * i + 1]? = some e ∧
      e.context.action = packageAction (c.source request.kind) request.language ∧
      ∀ rest entry, e.Leaves (c.source request.kind) rest entry →
        (∀ j other o, i < j → names[j]? = some other → Constraint.resolve other = .ok o →
          ¬placeOf (o.source request.kind) <+: placeOf (c.source request.kind) ++ rest) →
        fs.get? (output ++ placeOf (c.source request.kind) ++ rest) = some entry

/-- The packages of names stand when their turns have come to their ends on a site. -/
theorem Turns.packages_stand {names : List String} {result : Except Failure (List Path)} {paths : List Path}
    (h : Turns g code request .package (.fromRoot S.output) names start ds result stop)
    (hok : result = .ok paths) (hpython : request.language = .python)
    (hcode : ∀ file ∈ code.files, Segmented file.1) (hready : S.Ready g.stagingRoot start.files root)
    (hp : S.path = g.stagingRoot.getD start.temporary) (hneat : Dispatch.Neat ds) :
    PackagesStand request S.output names ds stop.files := by
  induction h generalizing paths root with
  | done => exact fun i name c hname => by simp at hname
  | stopped => cases hok
  | @passed name rest c start noted middle ds es path result stop hc hnoted hturn hrest ih =>
    cases result with
    | error failure => cases hok
    | ok others =>
      obtain ⟨d, e, rfl, hpackages⟩ := hturn.packages
      rw [hpython] at hturn
      have hleft := hturn.on_site_of_noted hnoted hcode (Constraint.segmented_of_resolve hc request.kind) hready
        hp hneat.left
      have hp' : S.path = g.stagingRoot.getD middle.temporary := by rw [hp, hleft.temporary]
      intro i name' c' hname hc'
      cases i with
      | zero =>
        -- the package lands in its place, and the later turns keep it
        obtain rfl : name = name' := by simpa using hname
        obtain rfl : c = c' := Except.ok.inj (hc.symm.trans hc')
        obtain ⟨d', e', hds, hlanded⟩ := hleft.landed path rfl
        obtain ⟨rfl, rfl⟩ : d = d' ∧ e = e' := by simpa using hds
        refine ⟨e, rfl, hpackages.action, fun more entry hleaves hlater => ?_⟩
        obtain ⟨hthere, hlog⟩ := hlanded.stands hleaves
        refine hrest.keeps rfl hpython hcode hleft.kept hp' hneat.right (fun other hmem o ho hin => ?_) hthere
          hlog
        obtain ⟨j, hj⟩ := List.getElem?_of_mem hmem
        rw [List.append_assoc, List.prefix_append_right_inj] at hin
        exact hlater (j + 1) other o (Nat.succ_pos j) hj ho hin
      | succ i =>
        obtain ⟨e', he', haction, hstand⟩ := ih rfl (hleft.kept.ready hp') hp' hneat.right i name' c' hname hc'
        refine ⟨e', he', haction, fun more entry hleaves hlater => hstand more entry hleaves ?_⟩
        exact fun j other o hj hother ho => hlater (j + 1) other o (Nat.succ_lt_succ hj) hother ho

/-- When a request for Python succeeds, the packages of its names stand in the output directory, but for what is at
or below the place of a later name. -/
theorem run_get_packages_stand (hg : g.IsStandard) (hp : request.outputDirectory.Written) {s : Session}
    (hs : s.host.files.Sound) (hroot : (g.stagingRoot.getD s.host.temporary).Written)
    (hapart : g.Apart request s.host) (hpython : request.language = .python)
    (hcs : ∀ c ∈ s.dispatchesOf (g.get request), c.Contained)
    (hlinks : ∀ c ∈ s.dispatchesOf (g.get request),
      c.context.action.adapter = CommandKind.packager.command → c.LeavesNoLink)
    {paths : List Path} {t : Session} (hrun : (g.get request).run s = (.ok paths, t)) :
    ∃ place, (Host.resolve request.outputDirectory).run s.host = (.ok (.fromRoot place), s.host) ∧
      PackagesStand request place request.names (s.dispatchesOf (g.get request)) t.host.files := by
  obtain ⟨ds, result, t', hrun', hdispatches, hcourse⟩ := run_get_course hg request s
  rw [Session.dispatchesOf_eq hrun' hdispatches] at hcs hlinks ⊢
  rw [hrun] at hrun'
  cases hrun'
  have hl : request.language.isPrimary = false := by rw [hpython]; rfl
  have hprimary : request.language.isPrimary ≠ true := by rw [hl]; exact Bool.false_ne_true
  cases hcourse with
  | idle hopened _ hnone _ =>
    obtain ⟨place, rfl, -⟩ := hapart.opened hs hp hopened
    refine ⟨place, hopened.resolved, fun i name c hname => ?_⟩
    rw [hnone] at hname
    simp at hname
  | saved _ _ hsaved => exact absurd hsaved hprimary
  | finished hopened haccepted _ hturns hfinish =>
    obtain ⟨-, rfl⟩ := haccepted.harvester_eq hl
    obtain ⟨place, rfl, -⟩ := hapart.opened hs hp hopened
    have hcode := haccepted.stageable.segmented
    refine ⟨place, hopened.resolved, ?_⟩
    rcases hturns.of_apart hapart hs hp hroot hopened hpython haccepted.nonempty hcode ⟨hcs, hlinks⟩ with
      ⟨⟨_, hbad⟩, -⟩ | ⟨S, rfl, hpath, hready, hpassed⟩
    · cases hbad
    obtain ⟨executable, hstop⟩ := hpassed.kept.run_finalize hfinish
    intro i name c hname hc
    obtain ⟨e, he, haction, hstand⟩ :=
      hturns.packages_stand rfl hpython hcode hready hpath ⟨hcs, hlinks⟩ i name c hname hc
    refine ⟨e, he, haction, fun rest entry hleaves hlater => ?_⟩
    -- the marker that finishes the output directory is in no package
    have hmarker : S.output ++ placeOf (c.source request.kind) ++ rest ≠ S.marker := by
      intro heq
      have hspared := (S.alwaysSpared_marker _ (Constraint.segmented_of_resolve hc request.kind)).1
      exact hspared (heq ▸ List.prefix_append _ _)
    have hname : ¬isNameless S.marker := S.proper_marker.not_isNameless (by simp [Site.marker])
    rw [hstop]
    show FileSystem.get? (FileSystem.put _ S.marker _) _ = _
    rw [get?_put _ _ hname, if_neg fun heq => hmarker heq.symm]
    exact hstand rest entry hleaves hlater

/-! ## A request for a module and one below it -/

/-- A request for two modules, the place of the second of which is above that of the first. -/
def nested : Request :=
  { language := .python, outputDirectory := .fromRoot ["out"], names := ["a/x", "a"], kind := .module }

/-- The request for two modules passes the check for collisions and succeeds, and so do its tools, which keep to their
directories. The packager left a file for the first module, and it is gone at the end. -/
theorem outcome_nested :
    isOk (checkCollisions nested.names nested.language nested.kind) = true ∧
      ((({} : Getter).get nested).run stocked).1.toOption.isSome = true ∧
      (stocked.dispatchesOf (({} : Getter).get nested)).all (fun c =>
        c.isTidy && c.receipt.succeeded) = true ∧
      ((stocked.dispatchesOf (({} : Getter).get nested))[1]?.map fun e =>
        (e.before.files.locate .follow (.ofString e.context.workingDirectory)).toOption.map fun work =>
          e.after.files.get? (work ++ Site.Desk.sourcePlace "a/x" ++ ["__init__.py"])) =
        some (some (some (.file (.text "# a/x") false))) ∧
      ((({} : Getter).get nested).run stocked).2.host.files.get?
        (["out"] ++ placeOf "a/x" ++ ["__init__.py"]) = none := by
  decide +kernel

/-- What the request for two modules gives. -/
theorem exists_run_nested :
    ∃ paths t, (({} : Getter).get nested).run stocked = (.ok paths, t) := by
  obtain ⟨-, hsome, -⟩ := outcome_nested
  rcases hrun : (({} : Getter).get nested).run stocked with ⟨failure | paths, t⟩
  · rw [hrun] at hsome
    cases hsome
  · exact ⟨paths, t, rfl⟩

/-- The tools of the request for two modules succeed, are contained, and leave no links where packages are made. -/
theorem contained_nested {c : Dispatch} (hc : c ∈ stocked.dispatchesOf (({} : Getter).get nested)) :
    (c.Contained ∧ c.LeavesNoLink) ∧ c.receipt.succeeded = true := by
  obtain ⟨-, -, hall, -⟩ := outcome_nested
  have hboth := List.all_eq_true.1 hall c hc
  rw [Bool.and_eq_true] at hboth
  exact ⟨Dispatch.contained_of_isTidy hboth.1, hboth.2⟩

/-- The packages of two modules stand in the output directory, but for what is at or below the place of the second. -/
theorem run_get_packages_stand_nested :
    ∃ paths t, (({} : Getter).get nested).run stocked = (.ok paths, t) ∧
      PackagesStand nested ["out"] nested.names (stocked.dispatchesOf (({} : Getter).get nested)) t.host.files := by
  obtain ⟨paths, t, hrun⟩ := exists_run_nested
  obtain ⟨place, hresolve, hstand⟩ :=
    run_get_packages_stand isStandard_default (by decide : nested.outputDirectory.Written)
      RunOptions.sound_bareHost (by decide) (apart_stocked rfl) rfl (fun c hc => (contained_nested hc).1.1)
      (fun c hc _ => (contained_nested hc).1.2) hrun
  obtain rfl : place = ["out"] := by
    have hsame := hresolve.symm.trans (opened_stocked rfl).resolved
    cases hsame
    rfl
  exact ⟨paths, t, hrun, hstand⟩

/-- Names that pass the check for collisions do not all have their packages in the output directory when a request
for them succeeds: the package of a module goes with what is below the place of a later one. -/
theorem not_packages_stand_of_distinct :
    ¬∀ (g : Getter) (request : Request) (s t : Session) (paths : List Path) (place : Location),
      g.IsStandard → request.outputDirectory.Written → s.host.files.Sound → request.language = .python →
      checkCollisions request.names request.language request.kind = .ok () → g.Apart request s.host →
      (∀ c ∈ s.dispatchesOf (g.get request), (c.Contained ∧ c.LeavesNoLink) ∧ c.receipt.succeeded = true) →
      (Host.resolve request.outputDirectory).run s.host = (.ok (.fromRoot place), s.host) →
      (g.get request).run s = (.ok paths, t) →
      ∀ (i : Nat) (name : String) (c : Constraint) (e : Dispatch) (rest : Location) (entry : Entry),
        request.names[i]? = some name → Constraint.resolve name = .ok c →
        (s.dispatchesOf (g.get request))[2 * i + 1]? = some e → e.Leaves (c.source request.kind) rest entry →
        t.host.files.get? (place ++ placeOf (c.source request.kind) ++ rest) = some entry := by
  intro hall
  obtain ⟨paths, t, hrun⟩ := exists_run_nested
  obtain ⟨c, hc, hsource⟩ : ∃ c, Constraint.resolve "a/x" = .ok c ∧ c.source .module = "a/x" := by
    have hresolves : ((Constraint.resolve "a/x").toOption.map (·.source .module)) = some "a/x" := by
      decide +kernel
    obtain ⟨c, hc, hsource⟩ := Option.map_eq_some_iff.1 hresolves
    refine ⟨c, ?_, hsource⟩
    cases hresolved : Constraint.resolve "a/x" with
    | error e =>
      rw [hresolved] at hc
      cases hc
    | ok other =>
      rw [hresolved] at hc
      exact congrArg _ (Option.some.inj hc)
  obtain ⟨hchecked, -, -, hleft, hgone⟩ := outcome_nested
  obtain ⟨e, he, hwork⟩ := Option.map_eq_some_iff.1 hleft
  obtain ⟨work, hlocate, hfile⟩ := Option.map_eq_some_iff.1 hwork
  have hleaves : e.Leaves (c.source nested.kind) ["__init__.py"] (.file (.text "# a/x") false) := by
    refine ⟨work, ?_, ?_⟩
    · cases hplace : e.before.files.locate .follow (.ofString e.context.workingDirectory) with
      | error failure =>
        rw [hplace] at hlocate
        cases hlocate
      | ok other =>
        rw [hplace] at hlocate
        exact congrArg _ (Option.some.inj hlocate)
    · rw [show c.source nested.kind = "a/x" from hsource]
      exact hfile
  have hthere := hall {} nested stocked t paths ["out"] isStandard_default (by decide) RunOptions.sound_bareHost
    rfl (isOk_iff.1 hchecked) (apart_stocked rfl) (fun c hc => contained_nested hc)
    (opened_stocked rfl).resolved hrun 0 "a/x" c e ["__init__.py"] _ rfl hc he hleaves
  rw [show c.source nested.kind = "a/x" from hsource] at hthere
  rw [hrun, hthere] at hgone
  cases hgone

end Getter

end ProviderBindings
