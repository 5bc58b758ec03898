import ProviderBindings.ConfigCheck
import ProviderBindings.Proofs.ProjectRuns
import ProviderBindings.Proofs.Stamping

/-!
# What a check of the configuration promises

The check of a configuration and the run for it look at names in ways of their own: the check counts
repetitions, reads every name and only then looks for collisions, while a run reads the names of one request
after another. They agree nevertheless. `isValid_ofProject_iff` says that a check finds nothing wrong exactly
when each request of the run would pass, and so a run for a configuration that was found valid does not
stumble over names or language, and a run for any other ends in an error.
-/

namespace ProviderBindings

open FileSystem

/-! ## What a check finds -/

namespace ConfigReport

/-- The duplicates are the names that occur more than once. -/
theorem mem_duplicates_iff {names : List String} {name : String} : name ∈ duplicates names ↔ 1 < names.count name := by
  unfold duplicates
  rw [List.mem_mergeSort, List.mem_eraseDups, List.mem_filter, decide_eq_true_eq]
  exact ⟨fun h => h.2, fun h => ⟨List.count_pos_iff.1 (by omega), h⟩⟩

/-- No name occurs more than once when there are no duplicates. -/
theorem duplicates_eq_nil_iff {names : List String} : duplicates names = [] ↔ names.Nodup := by
  rw [List.eq_nil_iff_forall_not_mem, List.nodup_iff_count_le_one]
  simp only [mem_duplicates_iff, Nat.not_lt]

/-- Names that pass the check for collisions are different, and can all be read. -/
theorem nodup_of_checkCollisions {names : List String} {language : Language} {kind : TargetKind}
    (h : checkCollisions names language kind = .ok ()) :
    names.Nodup ∧ ∀ name ∈ names, ∃ c, Constraint.resolve name = .ok c := by
  obtain ⟨cs, hcs, hkeys⟩ := checkCollisions_ok_iff.1 h
  have hdistinct : (cs.map Except.ok : List (Except ResolutionFault Constraint)).Nodup :=
    hkeys.of_map.map fun _ _ he => Except.ok.inj he
  rw [← hcs] at hdistinct
  refine ⟨hdistinct.of_map, fun name hname => ?_⟩
  have hin : Constraint.resolve name ∈ cs.map Except.ok := hcs ▸ List.mem_map_of_mem hname
  obtain ⟨c, -, hc⟩ := List.mem_map.1 hin
  exact ⟨c, hc.symm⟩

/-- Nothing is wrong with names exactly when they pass the check for collisions. -/
theorem nameErrors_eq_nil_iff {names : List String} {language : Language} {kind : TargetKind} :
    nameErrors names language kind = [] ↔ checkCollisions names language kind = .ok () := by
  unfold nameErrors
  dsimp only
  rw [List.append_eq_nil_iff, List.append_eq_nil_iff]
  constructor
  · rintro ⟨⟨hrepeated, hmalformed⟩, hcolliding⟩
    have hnone : duplicates names = [] := by
      by_contra hsome
      rw [if_neg (by simpa using hsome)] at hrepeated
      cases hrepeated
    -- collisions are looked for only when nothing else was found
    rw [hnone, hmalformed] at hcolliding
    simp only [List.isEmpty_nil, Bool.and_self, if_true] at hcolliding
    cases hcheck : checkCollisions names language kind with
    | ok _ => rfl
    | error failure =>
      obtain ⟨k, name, fault, -, -, -, rfl⟩ := checkCollisions_error hcheck
      rw [hcheck] at hcolliding
      cases hcolliding
  · intro h
    obtain ⟨hnodup, hresolve⟩ := nodup_of_checkCollisions h
    have hnone : duplicates names = [] := duplicates_eq_nil_iff.2 hnodup
    refine ⟨⟨by rw [hnone]; rfl, ?_⟩, ?_⟩
    · rw [List.filterMap_eq_nil_iff]
      intro name hname
      obtain ⟨c, hc⟩ := hresolve name hname
      rw [hc]
    · rw [h]
      split <;> rfl

/-- A check finds nothing wrong with a project exactly when its language can be produced and the names of both
kinds pass the check for collisions. -/
theorem isValid_ofProject_iff (path : Path) (project : Project) :
    (ofProject path project).isValid ↔
      (∃ harvester, Harvester.ofLanguage project.language = .ok harvester) ∧
        ∀ kind, checkCollisions (project.names kind) project.language kind = .ok () := by
  unfold isValid ofProject
  dsimp only
  rw [List.isEmpty_iff, List.append_eq_nil_iff, List.flatMap_eq_nil_iff]
  have hnames : (∀ kind ∈ [TargetKind.provider, .module],
      nameErrors (project.names kind) project.language kind = []) ↔
        ∀ kind, checkCollisions (project.names kind) project.language kind = .ok () := by
    refine ⟨fun h kind => nameErrors_eq_nil_iff.1 (h kind ?_), fun h kind _ => ?_⟩
    · cases kind <;> simp
    · exact nameErrors_eq_nil_iff.2 (h kind)
  rw [hnames]
  cases Harvester.ofLanguage project.language with
  | ok harvester => simp
  | error e => simp

end ConfigReport

/-- A check reports that there is no configuration, that it cannot be used, or what is wrong with the project
that it is. -/
theorem run_checkConfig_ok {path : Option Path} {report : ConfigReport} {host host' : Host}
    (h : (checkConfig path).run host = (.ok report, host')) :
    ((ConfigFile.givenOrNearest path).run host = (.ok none, host') ∧ report.isValid = false) ∨
      ∃ p found, (ConfigFile.givenOrNearest path).run host = (.ok (some p), found) ∧
        ((∃ project, (ConfigFile.load (some p)).run found = (.ok project, host') ∧
            report = .ofProject p project) ∨
          ∃ fault, (ConfigFile.load (some p)).run found = (.error (.config fault), host') ∧
            report.isValid = false) := by
  unfold checkConfig at h
  obtain ⟨given, found, hgiven, hrest⟩ := exists_of_run_bind_ok h
  cases given with
  | none =>
    cases hrest
    exact .inl ⟨hgiven, rfl⟩
  | some p =>
    refine .inr ⟨p, found, hgiven, ?_⟩
    dsimp only at hrest
    rw [run_tryCatch, run_bind] at hrest
    revert hrest
    rcases (ConfigFile.load (some p)).run found with ⟨failure | project, after⟩
    · intro hrest
      cases failure with
      | config fault =>
        cases hrest
        exact .inr ⟨fault, rfl, rfl⟩
      | _ => cases hrest
    · intro hrest
      cases hrest
      exact .inl ⟨project, rfl, rfl⟩

/-! ## What a run carries out -/

namespace RunOptions

variable {o : RunOptions} {s t : Session} {requests : List Request}

/-- Requests that are carried out one after another, each with the session that it starts in, up to the first
that fails. -/
def starts (o : RunOptions) : List Request → Session → List (Request × Session)
  | [], _ => []
  | request :: rest, s =>
    (request, s) :: match ((o.getterFor request).get request).run s with
      | (.ok _, t) => o.starts rest t
      | (.error _, _) => []

/-- The requests of a run for the names of its configuration, each with the session that it starts in. -/
def requestStarts (o : RunOptions) (s : Session) : List (Request × Session) :=
  match o.loadDefaults.run s.host with
  | (.ok (project, root), host) =>
    o.starts (o.requestsFor project project.language (root.child project.output)) { s with host }
  | (.error _, _) => []

/-- Whether the output directory of a request resolves where the request starts, and its tools are tame. -/
structure Sane (o : RunOptions) (start : Request × Session) : Prop where
  /-- The output directory resolves. -/
  resolves : ∃ resolved, (Host.resolve start.1.outputDirectory).run start.2.host =
    (.ok resolved, start.2.host)
  /-- The tools keep the tree grounded, and temporary files go where they went. -/
  tame : ∀ d ∈ start.2.dispatchesOf ((o.getterFor start.1).get start.1), d.Tame

/-- A request of a run failed with an error of generation. -/
def FailedIn (o : RunOptions) (start : Request × Session) (e : GenerationError) : Prop :=
  ∃ t, ((o.getterFor start.1).get start.1).run start.2 = (.error (.generation e), t)

/-- The getter for a request is standard. -/
theorem isStandard_getterFor (o : RunOptions) (request : Request) :
    (o.getterFor request).IsStandard :=
  ⟨rfl, request.kind, rfl⟩

/-- A request that is sane where it starts leaves a steady host when it succeeds, and fails in an error of
generation, for which there is a place in the list of those. -/
theorem Sane.outcome {request : Request} (h : o.Sane (request, s))
    (hp : request.outputDirectory.Written) (hs : s.host.Steady o.stagingRoot) :
    ∃ result t, ((o.getterFor request).get request).run s = (result, t) ∧
      t.host.Steady o.stagingRoot ∧ ∀ failure, result = .error failure → ∃ e ds,
        failure = .generation e ∧ Getter.Stamped (o.getterFor request) request ds e := by
  obtain ⟨ds, result, t, hrun, hdispatches, hcourse⟩ :=
    Getter.run_get_course (o.isStandard_getterFor request) request s
  obtain ⟨resolved, hresolved⟩ := h.resolves
  have htame := h.tame
  rw [Session.dispatchesOf_eq hrun hdispatches] at htame
  obtain ⟨hsteady, -, hbad⟩ := hcourse.stamped hs hp htame hresolved
  refine ⟨result, t, hrun, hsteady, fun failure he => ?_⟩
  obtain ⟨e, hfailure, hstamped⟩ := hbad failure he
  exact ⟨e, ds, hfailure, hstamped⟩

/-- Requests that are sane where they start all succeed, or a report tells the error of the first that fails. -/
theorem run_carryOut_sane (requests : List Request) (before : RunReport)
    (hp : ∀ request ∈ requests, request.outputDirectory.Written) (hs : s.host.Steady o.stagingRoot)
    (hsane : ∀ start ∈ o.starts requests s, o.Sane start) :
    ∃ report t, (o.carryOut before requests).run s = (.ok report, t) ∧
      ((report.errors = before.errors ∧ ∀ request ∈ requests, ∃ paths u v,
          ((o.getterFor request).get request).run u = (.ok paths, v)) ∨
        ∃ start ∈ o.starts requests s, ∃ ds e, o.FailedIn start e ∧
          Getter.Stamped (o.getterFor start.1) start.1 ds e ∧
          report.errors = before.errors ++ [e.describe]) := by
  -- on the requests; one that succeeds leaves a steady host, on which the next one starts
  induction requests generalizing before s with
  | nil => exact ⟨before, s, rfl, .inl ⟨rfl, by simp⟩⟩
  | cons request rest ih =>
    obtain ⟨result, u, hget, hsteady, hbad⟩ :=
      (hsane (request, s) (by simp [starts])).outcome (hp request (by simp)) hs
    rcases hrun : (o.carryOut before (request :: rest)).run s with ⟨outcome, t⟩
    cases carriesOut_of_run hrun with
    | raised hget' hother =>
      rw [hget] at hget'
      cases hget'
      obtain ⟨e, ds, rfl, -⟩ := hbad _ rfl
      exact absurd rfl (hother e)
    | @reported e _ _ hget' =>
      rw [hget] at hget'
      cases hget'
      obtain ⟨_, ds, he, hstamped⟩ := hbad _ rfl
      cases he
      exact ⟨_, _, rfl, .inr ⟨(request, s), by simp [starts], ds, e, ⟨u, hget⟩, hstamped, rfl⟩⟩
    | @succeeded paths _ _ _ hget' hrest =>
      rw [hget] at hget'
      cases hget'
      have hstarts : o.starts (request :: rest) s = (request, s) :: o.starts rest u := by
        rw [starts, hget]
      obtain ⟨report, t', hrun', hcases⟩ := ih
        { before with generated := before.generated ++ paths }
        (fun other hother => hp other (List.mem_cons_of_mem _ hother)) hsteady
        fun start hstart => hsane start (by rw [hstarts]; exact List.mem_cons_of_mem _ hstart)
      rw [hrest] at hrun'
      cases hrun'
      refine ⟨report, t, rfl, ?_⟩
      rcases hcases with ⟨herrors, hall⟩ | ⟨start, hstart, hfailed⟩
      · refine .inl ⟨herrors, fun other hother => ?_⟩
        rcases List.mem_cons.1 hother with rfl | hother
        · exact ⟨paths, s, u, hget⟩
        · exact hall other hother
      · refine .inr ⟨start, ?_, hfailed⟩
        rw [hstarts]
        exact List.mem_cons_of_mem _ hstart

/-- The requests of a run are those that its starts are taken from. -/
theorem mem_of_mem_starts {start : Request × Session} (h : start ∈ o.starts requests s) :
    start.1 ∈ requests := by
  induction requests generalizing s with
  | nil => cases h
  | cons request rest ih =>
    rw [starts] at h
    rcases List.mem_cons.1 h with rfl | h
    · exact List.mem_cons_self
    · split at h
      · exact List.mem_cons_of_mem _ (ih h)
      · cases h

/-- A request with names that succeeds had a language that can be produced and names that pass the check. -/
theorem accepted_of_run_get_ok {request : Request} (hne : request.names ≠ []) {paths : List Path}
    (h : ((o.getterFor request).get request).run s = (.ok paths, t)) :
    (∃ harvester, Harvester.ofLanguage request.language = .ok harvester) ∧
      checkCollisions request.names request.language request.kind = .ok () := by
  obtain ⟨output, fs, harvester, code, -, -, hharvester, hcheck, -⟩ := Getter.run_get_ok hne h
  exact ⟨⟨harvester, hharvester⟩, hcheck⟩

/-- The requests for the names of a project: one for each kind that has names. -/
theorem mem_requestsFor_iff {path : Option Path} {project : Project} {language : Language}
    {output : Path} {request : Request} :
    request ∈ ({ configPath := path } : RunOptions).requestsFor project language output ↔
      ∃ kind, project.names kind ≠ [] ∧
        request = { language, outputDirectory := output, names := project.names kind, kind } := by
  have hgives : ({ configPath := path } : RunOptions).givesNames = false := rfl
  unfold requestsFor
  rw [List.mem_filterMap]
  simp only [hgives, Bool.false_eq_true, if_false, List.isEmpty_iff]
  constructor
  · rintro ⟨kind, -, hsome⟩
    refine ⟨kind, ?_⟩
    split at hsome
    · cases hsome
    · next hne =>
      cases hsome
      exact ⟨hne, rfl⟩
  · rintro ⟨kind, hne, rfl⟩
    refine ⟨kind, by cases kind <;> simp, ?_⟩
    rw [if_neg hne]

end RunOptions

/-- Names that pass the check for collisions pass it as far as they go. -/
theorem checkCollisions_take {names : List String} {language : Language} {kind : TargetKind}
    (h : checkCollisions names language kind = .ok ()) (k : Nat) :
    checkCollisions (names.take k) language kind = .ok () := by
  obtain ⟨cs, hcs, hkeys⟩ := checkCollisions_ok_iff.1 h
  refine checkCollisions_ok_iff.2 ⟨cs.take k, ?_, ?_⟩
  · rw [List.map_take, List.map_take, hcs]
  · rw [List.map_take]
    exact hkeys.sublist (List.take_sublist _ _)

/-- A request whose language and names pass the check fails with an error of another stage than that in which
names are resolved, and not because of its language. -/
theorem Getter.Stamped.beyond_check {g : Getter} {request : Request} {ds : List Dispatch}
    {e : GenerationError} (h : Stamped g request ds e)
    (hlanguage : ∃ harvester, Harvester.ofLanguage request.language = .ok harvester)
    (hcheck : checkCollisions request.names request.language request.kind = .ok ()) :
    e.stage ≠ some "resolve" ∧ ∀ language, e.cause ≠ .unsupportedLanguage language := by
  cases h with
  | unsupported hnone =>
    obtain ⟨harvester, hsome⟩ := hlanguage
    unfold Harvester.ofLanguage at hsome
    rw [hnone] at hsome
    cases hsome
  | output reason => exact ⟨by simp, nofun⟩
  | @resolve k name fault hname hbefore hfails =>
    rw [checkCollisions_take hcheck] at hfails
    cases hfails
  | save reason => exact ⟨by simp, nofun⟩
  | name hname hc hlength hfront hstamped =>
    cases hstamped <;> exact ⟨by simp, nofun⟩
  | marker hlength hall fault => exact ⟨by simp, nofun⟩

namespace RunOptions

variable {path : Option Path} {s : Session}

/-- Whether the directory of a configuration file that is loaded resolves, and every request of the run for it
is sane where it starts. -/
structure Resolves (o : RunOptions) (s : Session) : Prop where
  /-- The directory of a configuration file that is loaded resolves. -/
  root : ∀ p project host, (ConfigFile.givenOrNearest o.configPath).run s.host = (.ok (some p), s.host) →
    (ConfigFile.load (some p)).run s.host = (.ok project, host) →
    ∃ root, (ConfigFile.projectRoot p).run host = (.ok root, host)
  /-- Every request is sane where it starts. -/
  requests : ∀ start ∈ o.requestStarts s, o.Sane start

/-- What a run without overrides comes to for a configuration that was loaded: nothing is asked for, or all
requests succeed, or the first that fails is told. -/
theorem run_loaded {project : Project} {root : Path} {host : Host}
    (h : ({ configPath := path } : RunOptions).loadDefaults.run s.host = (.ok (project, root), host))
    (hroot : root.Written) (hs : host.Steady none)
    (hsane : ∀ start ∈ ({ configPath := path } : RunOptions).requestStarts s,
      ({ configPath := path } : RunOptions).Sane start) :
    ∃ report t, ({ configPath := path } : RunOptions).run.run s = (.ok report, t) ∧
      (((∀ kind, project.names kind = []) ∧ report.errors = ["No providers or modules to generate."]) ∨
        (report.errors = [] ∧ (∃ kind, project.names kind ≠ []) ∧
          ∀ request ∈ ({ configPath := path } : RunOptions).requestsFor project project.language
            (root.child project.output), ∃ paths u v,
              ((({ configPath := path } : RunOptions).getterFor request).get request).run u =
                (.ok paths, v)) ∨
        ∃ start ∈ ({ configPath := path } : RunOptions).requestStarts s,
          start.1 ∈ ({ configPath := path } : RunOptions).requestsFor project project.language
            (root.child project.output) ∧
          ∃ ds e, ({ configPath := path } : RunOptions).FailedIn start e ∧
            Getter.Stamped (({ configPath := path } : RunOptions).getterFor start.1) start.1 ds e ∧
            report.errors = [e.describe]) := by
  -- one name for the options, of which no more is used below than that nothing is overridden
  obtain ⟨o, ho⟩ : ∃ o : RunOptions, o = { configPath := path } := ⟨_, rfl⟩
  have hlanguage : o.language = "" := by rw [ho]
  have houtput : o.output = "" := by rw [ho]
  have hstaging : o.stagingRoot = none := by rw [ho]
  have hmem : ∀ {request : Request}, request ∈ o.requestsFor project project.language
      (root.child project.output) ↔ ∃ kind, project.names kind ≠ [] ∧
        request = { language := project.language, outputDirectory := root.child project.output,
                    names := project.names kind, kind } := by
    rw [ho]
    exact mem_requestsFor_iff
  rw [← ho] at h hsane ⊢
  have hstarts : o.requestStarts s = o.starts
      (o.requestsFor project project.language (root.child project.output)) { s with host } := by
    unfold requestStarts
    rw [h]
  have hempty : o.language.isEmpty = true := by
    rw [hlanguage]
    rfl
  rw [run_of_loaded h, if_pos hempty]
  dsimp only
  have hplace : root.child project.output =
      root.child (if o.output.isEmpty then project.output else o.output) := by
    simp [houtput]
  -- without requests the run ends there; else they are carried out, and the first that fails is told
  rw [o.run_runIn project root project.language hplace]
  by_cases hnone : o.requestsFor project project.language (root.child project.output) = []
  · rw [if_pos (by simpa using hnone)]
    refine ⟨_, _, rfl, .inl ⟨fun kind => ?_, rfl⟩⟩
    by_contra hne
    have hin := hmem.2 ⟨kind, hne, rfl⟩
    rw [hnone] at hin
    cases hin
  · rw [if_neg (by simpa using hnone)]
    obtain ⟨report, t, hcarry, hcases⟩ := run_carryOut_sane (o := o) (s := { s with host })
      (o.requestsFor project project.language (root.child project.output))
      { language := project.language, outputDirectory := root.child project.output
        requests := o.requestsFor project project.language (root.child project.output) }
      (fun request hrequest => by
        obtain ⟨kind, -, rfl⟩ := hmem.1 hrequest
        exact hroot.child _)
      (by rw [hstaging]; exact hs) (by rw [← hstarts]; exact hsane)
    refine ⟨report, t, hcarry, .inr ?_⟩
    rcases hcases with ⟨herrors, hall⟩ | ⟨start, hstart, hfailed⟩
    · refine .inl ⟨herrors, ?_, hall⟩
      obtain ⟨request, hrequest⟩ := List.exists_mem_of_ne_nil _ hnone
      obtain ⟨kind, hne, -⟩ := hmem.1 hrequest
      exact ⟨kind, hne⟩
    · refine .inr ⟨start, ?_, mem_of_mem_starts hstart, hfailed⟩
      rw [hstarts]
      exact hstart

/-- A project for which something is asked, and all requests succeed, passes the check. -/
theorem isValid_of_run_get_ok (p : Path) {project : Project} {root : Path} {kind : TargetKind}
    (hkind : project.names kind ≠ [])
    (hall : ∀ request ∈ ({ configPath := path } : RunOptions).requestsFor project project.language
      (root.child project.output), ∃ paths u v,
        ((({ configPath := path } : RunOptions).getterFor request).get request).run u = (.ok paths, v)) :
    (ConfigReport.ofProject p project).isValid := by
  -- requests that succeed passed the check for collisions
  have haccepted : ∀ kind, project.names kind ≠ [] →
      (∃ harvester, Harvester.ofLanguage project.language = .ok harvester) ∧
        checkCollisions (project.names kind) project.language kind = .ok () := by
    intro kind hne
    obtain ⟨paths, u, v, hget⟩ := hall _ (mem_requestsFor_iff.2 ⟨kind, hne, rfl⟩)
    exact accepted_of_run_get_ok hne hget
  refine (ConfigReport.isValid_ofProject_iff p project).2 ⟨(haccepted kind hkind).1, fun other => ?_⟩
  by_cases hnone : project.names other = []
  · rw [hnone]
    exact checkCollisions_ok_iff.2 ⟨[], rfl, List.nodup_nil⟩
  · exact (haccepted other hnone).2

/-- A check and a run without overrides agree on a configuration. A check finds nothing wrong with a project
exactly when its language can be produced and the names of both kinds pass the check for collisions. Then the
run for it does not fail because of its language or in the stage where names are resolved; and when something
is wrong, with the project or in reading it, the run ends in an error. -/
theorem run_of_checkConfig (hsound : s.host.files.Sound) (hs : s.host.Steady none)
    (hp : ∀ p, path = some p → p.Written) {report : ConfigReport} {host : Host}
    (hcheck : (checkConfig path).run s.host = (.ok report, host))
    (hresolves : ({ configPath := path } : RunOptions).Resolves s) :
    (∀ project after, (ConfigFile.load path).run s.host = (.ok project, after) →
      (report.isValid ↔ (∃ harvester, Harvester.ofLanguage project.language = .ok harvester) ∧
        ∀ kind, checkCollisions (project.names kind) project.language kind = .ok ())) ∧
    ∃ outcome t, ({ configPath := path } : RunOptions).run.run s = (.ok outcome, t) ∧
      (report.isValid →
        outcome.errors = [] ∨ outcome.errors = ["No providers or modules to generate."] ∨
        ∃ start ∈ ({ configPath := path } : RunOptions).requestStarts s,
          ∃ e, ({ configPath := path } : RunOptions).FailedIn start e ∧
            outcome.errors = [e.describe] ∧
            e.stage ≠ some "resolve" ∧ ∀ language, e.cause ≠ .unsupportedLanguage language) ∧
      (report.isValid = false → outcome.errors ≠ []) := by
  rcases run_checkConfig_ok hcheck with ⟨hnone, hbad⟩ | ⟨p, found, hfound, hloaded⟩
  · -- there is no configuration file
    have hload : (ConfigFile.load path).run s.host = (.error (.config .missing), host) := by
      unfold ConfigFile.load
      rw [run_bind_of_ok hnone]
      rfl
    have hdefaults : ({ configPath := path } : RunOptions).loadDefaults.run s.host =
        (.error (.config .missing), host) := by
      unfold loadDefaults
      rw [run_bind_of_ok hnone]
      rfl
    refine ⟨fun project after h => ?_, _, _, run_of_config_error hdefaults, fun h => ?_,
      fun _ => by simp⟩
    · rw [hload] at h
      cases h
    · rw [hbad] at h
      cases h
  · obtain ⟨rfl, -⟩ := ConfigFile.run_givenOrNearest_ok hsound hp hfound
    have hload : (ConfigFile.load path).run s.host = (ConfigFile.load (some p)).run s.host := by
      unfold ConfigFile.load
      rw [run_bind_of_ok hfound]
      rfl
    rw [hload]
    rcases hloaded with ⟨project, hproject, rfl⟩ | ⟨fault, hfault, hbad⟩
    · -- a project was loaded, and its requests are carried out
      have hvalid := ConfigReport.isValid_ofProject_iff p project
      obtain ⟨root, hroot⟩ := hresolves.root p project host hfound hproject
      have hdefaults : ({ configPath := path } : RunOptions).loadDefaults.run s.host =
          (.ok (project, root), host) := by
        unfold loadDefaults
        rw [run_bind_of_ok hfound]
        dsimp only
        rw [run_bind_of_ok hproject, run_bind_of_ok hroot]
        rfl
      obtain ⟨-, -, hrootWritten⟩ := run_loadDefaults_ok hsound hp hdefaults
      obtain ⟨outcome, t, hrun, hcases⟩ := run_loaded hdefaults hrootWritten
        ((ConfigFile.noted_of_run_load hproject).steady hs) hresolves.requests
      refine ⟨fun other after hother => ?_, outcome, t, hrun, fun hgood => ?_, fun hbad => ?_⟩
      · rw [hproject] at hother
        cases hother
        exact hvalid
      · obtain ⟨hlanguage, hchecks⟩ := hvalid.1 hgood
        rcases hcases with ⟨-, hidle⟩ | ⟨hall, -⟩ |
          ⟨start, hstart, hrequest, ds, e, hfailed, hstamped, herrors⟩
        · exact .inr (.inl hidle)
        · exact .inl hall
        · refine .inr (.inr ⟨start, hstart, e, hfailed, herrors, ?_⟩)
          obtain ⟨kind, -, hform⟩ := mem_requestsFor_iff.1 hrequest
          rw [hform] at hstamped
          exact hstamped.beyond_check hlanguage (hchecks kind)
      · rcases hcases with ⟨-, hidle⟩ | ⟨-, ⟨kind, hkind⟩, hall⟩ | ⟨start, -, -, ds, e, -, -, herrors⟩
        · simp [hidle]
        · -- requests that succeed passed the check that the report says they do not
          have hgood : (ConfigReport.ofProject p project).isValid := isValid_of_run_get_ok p hkind hall
          rw [hgood] at hbad
          cases hbad
        · simp [herrors]
    · -- the file cannot be used
      have hdefaults : ({ configPath := path } : RunOptions).loadDefaults.run s.host =
          (.error (.config fault), host) := by
        unfold loadDefaults
        rw [run_bind_of_ok hfound]
        dsimp only
        rw [run_bind_of_error hfault]
      refine ⟨fun project after h => ?_, _, _, run_of_config_error hdefaults, fun h => ?_,
        fun _ => by simp⟩
      · rw [hfault] at h
        cases h
      · rw [hbad] at h
        cases h

/-- A host with a configuration file for one provider in Python, on which no tool is registered. -/
def configuredHost : Host :=
  { files :=
      { entries :=
          [(["w"], .directory), (["tmp"], .directory),
           (["w", "bindgen.yml"], .file (.text "language: python\nproviders: [aws]\n") false)]
        workingDirectory := ["w"] }
    temporary := .fromRoot ["tmp"] }

/-- The run for that configuration file. -/
def configuredRun : RunOptions :=
  { configPath := some (Path.ofString "bindgen.yml") }

/-- The host with that configuration file is steady. -/
theorem steady_configuredHost : configuredHost.Steady none := by
  refine ⟨grounded_of_entries (by decide) (by decide) (by decide) fun location target h => ?_, by decide, by decide⟩
  simp [configuredHost] at h

/-- What the run for that configuration file finds at the start of its request, and what its tools do. -/
theorem starts_configuredRun :
    ((configuredRun.requestStarts { host := configuredHost }).all fun start =>
        ((Host.resolve start.1.outputDirectory).run start.2.host).1.toOption.isSome &&
          (start.2.dispatchesOf ((configuredRun.getterFor start.1).get start.1)).all fun d =>
            d.after.files.entries = d.before.files.entries ∧
              d.after.files.workingDirectory = d.before.files.workingDirectory ∧
              d.after.temporary = d.before.temporary) = true := by
  decide +kernel

/-- The run for that configuration file resolves what it uses. -/
theorem resolves_configuredRun : configuredRun.Resolves { host := configuredHost } := by
  constructor
  · intro p project host hgiven hload
    obtain rfl : Path.ofString "bindgen.yml" = p := by
      cases hgiven
      rfl
    have hroot : ((ConfigFile.projectRoot (Path.ofString "bindgen.yml")).run
        ((ConfigFile.load (some (Path.ofString "bindgen.yml"))).run configuredHost).2).1.toOption.isSome := by
      decide +kernel
    rw [show (ConfigFile.load (some (Path.ofString "bindgen.yml"))).run configuredHost = _ from hload] at hroot
    exact exists_run_resolve hroot
  · intro start hstart
    have hall := List.all_eq_true.1 starts_configuredRun start hstart
    rw [Bool.and_eq_true, List.all_eq_true] at hall
    refine ⟨exists_run_resolve hall.1, fun d hd => ?_⟩
    obtain ⟨hentries, hworking, htemporary⟩ := of_decide_eq_true (hall.2 d hd)
    exact Dispatch.tame_of_entries_eq hentries hworking htemporary

/-- The check finds nothing wrong with a configuration file for one provider, and the run for it ends in the
error of a tool that is missing. -/
theorem run_of_checkConfig_configuredRun :
    ∃ report host outcome t,
      (checkConfig configuredRun.configPath).run configuredHost = (.ok report, host) ∧
      report.isValid ∧
      configuredRun.run.run { host := configuredHost } = (.ok outcome, t) ∧
      ∃ start ∈ configuredRun.requestStarts { host := configuredHost },
        ∃ e, configuredRun.FailedIn start e ∧ outcome.errors = [e.describe] ∧
          e.stage ≠ some "resolve" ∧ ∀ language, e.cause ≠ .unsupportedLanguage language := by
  have hvalid : ((checkConfig configuredRun.configPath).run configuredHost).1.toOption.map
      ConfigReport.isValid = some true := by
    decide +kernel
  have herrors : (configuredRun.run.run { host := configuredHost }).1.toOption.map RunReport.errors =
      some ["aws [compile]: jsii failed: No adapter registered for 'jsii'"] := by
    decide +kernel
  rcases hcheck : (checkConfig configuredRun.configPath).run configuredHost with
    ⟨failure | report, host⟩
  · rw [hcheck] at hvalid
    cases hvalid
  · rw [hcheck] at hvalid
    have hsound : configuredHost.files.Sound := sound_of_entries (by decide) (by decide) nofun
    obtain ⟨-, outcome, t, hrun, hgood, -⟩ := run_of_checkConfig (s := { host := configuredHost })
      hsound steady_configuredHost
      (fun p hp => by
        obtain rfl := Option.some.inj hp
        decide) hcheck resolves_configuredRun
    have hrun : configuredRun.run.run { host := configuredHost } = (.ok outcome, t) := hrun
    rw [hrun] at herrors
    have herrors : outcome.errors = ["aws [compile]: jsii failed: No adapter registered for 'jsii'"] :=
      Option.some.inj herrors
    refine ⟨report, host, outcome, t, rfl, Option.some.inj hvalid, hrun, ?_⟩
    rcases hgood (Option.some.inj hvalid) with hnone | hidle | hfailed
    · rw [herrors] at hnone
      cases hnone
    · rw [herrors] at hidle
      exact absurd hidle (by decide)
    · exact hfailed

/-- A host with a configuration file for one provider and a module that has no name. The output directory is
given by a link that stands where the package of the provider is put. -/
def linkedHost : Host :=
  { files :=
      { entries :=
          [(["w"], .directory), (["tmp"], .directory), (["w", "real"], .directory),
           (["w", "real", "y"], .link "/w/real"), (["w", "real", "z"], .link "y"),
           (["w", "bindgen.yml"],
             .file (.text "language: python\noutput: real/y\nproviders: [y]\nmodules: ['!!']\n") false)]
        workingDirectory := ["w"] }
    temporary := .fromRoot ["tmp"] }

/-- A compiler that does nothing and a packager that writes the package of `y` as a link to its neighbour. -/
def linkingTools : Registry :=
  { tools :=
      [("jsii", .standIn { name := "jsii" }),
       ("jsii-pacmak", .standIn
         { name := "jsii-pacmak"
           effect := fun context => Host.withFiles do
             let neighbour := Harvester.sourcePath (Path.ofString context.workingDirectory) "z"
             makeDirectories neighbour
             writeText (neighbour.child "__init__.py") "z"
             modify fun fs => fs.put (neighbour.names.dropLast ++ ["y"]) (.link "z") })] }

/-- A configuration that the check objects to, and whose output directory resolves, ends a run in a failure
instead of a report when the package of the provider makes the link to the output directory an endless one. -/
theorem not_run_of_checkConfig :
    linkedHost.files.Sound ∧ linkedHost.Steady none ∧
      (∃ report host, (checkConfig configuredRun.configPath).run linkedHost = (.ok report, host) ∧
        report.isValid = false) ∧
      (∃ output, (Host.resolve ((Path.fromRoot ["w"]).child "real/y")).run linkedHost =
        (.ok output, linkedHost)) ∧
      ∀ outcome t,
        configuredRun.run.run { host := linkedHost, registry := linkingTools } ≠ (.ok outcome, t) := by
  have hbad : ((checkConfig configuredRun.configPath).run linkedHost).1.toOption.map
      ConfigReport.isValid = some false := by
    decide +kernel
  have hfails :
      (configuredRun.run.run { host := linkedHost, registry := linkingTools }).1.toOption.isSome = false := by
    decide +kernel
  refine ⟨sound_of_entries (by decide) (by decide) nofun,
    ⟨grounded_of_entries (by decide) (by decide) (by decide) fun location target h => ?_, by decide, by decide⟩,
    ?_, exists_run_resolve (by decide +kernel), fun outcome t hrun => ?_⟩
  · simp only [linkedHost, List.mem_cons, Prod.mk.injEq, Entry.link.injEq, List.not_mem_nil, reduceCtorEq,
      and_false, false_or, or_false] at h
    rcases h with ⟨-, rfl⟩ | ⟨-, rfl⟩ <;> decide
  · rcases hcheck : (checkConfig configuredRun.configPath).run linkedHost with ⟨failure | report, host⟩
    · rw [hcheck] at hbad
      cases hbad
    · rw [hcheck] at hbad
      exact ⟨report, host, rfl, Option.some.inj hbad⟩
  · rw [hrun] at hfails
    cases hfails

end RunOptions

end ProviderBindings
