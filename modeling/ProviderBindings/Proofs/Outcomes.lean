import ProviderBindings.Proofs.Loading

/-!
# What runs come to

A run ends in one of five ways: its configuration cannot be used, its language does not exist, there is
nothing to generate, its requests were carried out, or something is raised that is no error of generation.
`Carried` tells how requests are carried out, one after another up to the first that fails, with what the
ones that completed gave; after a request that failed nothing is done but to note it. `run_outcome` says
that a run ends in one of these ways, what its report holds in each, and that nothing is raised where the requests
are sane where they start.
-/

namespace ProviderBindings.RunOptions

open ConfigFile

variable {o : RunOptions} {s t u : Session} {requests : List Request}

/-! ## Requests that are carried out -/

/-- Requests that complete one after another, with what each of them gives. -/
inductive Completed (o : RunOptions) : Session → List Request → List (List Path) → Session → Prop
  | none {s : Session} : Completed o s [] [] s
  | next {s u t : Session} {request : Request} {rest : List Request} {paths : List Path}
      {more : List (List Path)} (hget : ((o.getterFor request).get request).run s = (.ok paths, u))
      (hrest : Completed o u rest more t) : Completed o s (request :: rest) (paths :: more) t

/-- Requests that are carried out, up to the first that does not complete. -/
inductive Carried (o : RunOptions) (before : RunReport) (requests : List Request) (s : Session) :
    Except Failure RunReport → Session → Prop
  /-- All of them completed. -/
  | completed {done : List (List Path)} {t : Session} (h : Completed o s requests done t) :
      Carried o before requests s (.ok { before with generated := before.generated ++ done.flatten }) t
  /-- One of them failed with an error of generation, which was noted. -/
  | failed {k : Nat} {request : Request} {done : List (List Path)} {e : GenerationError} {u v : Session}
      {host : Host} (hbefore : Completed o s (requests.take k) done u)
      (hrequest : requests[k]? = some request)
      (hget : ((o.getterFor request).get request).run u = (.error (.generation e), v))
      (hnoted : Noted v.host host) :
      Carried o before requests s
        (.ok { before with
          generated := before.generated ++ done.flatten, errors := before.errors ++ [e.describe] })
        { v with host }
  /-- One of them raised something else. -/
  | raised {k : Nat} {request : Request} {done : List (List Path)} {failure : Failure} {u v : Session}
      (hbefore : Completed o s (requests.take k) done u)
      (hrequest : requests[k]? = some request)
      (hget : ((o.getterFor request).get request).run u = (.error failure, v))
      (hnot : ∀ e, failure ≠ .generation e) : Carried o before requests s (.error failure) v

/-- Requests that were carried out after one that completed were carried out with it. -/
theorem Carried.cons {before : RunReport} {request : Request} {rest : List Request} {paths : List Path}
    {result : Except Failure RunReport}
    (hget : ((o.getterFor request).get request).run s = (.ok paths, u))
    (h : Carried o { before with generated := before.generated ++ paths } rest u result t) :
    Carried o before (request :: rest) s result t := by
  have hflat : ∀ done : List (List Path),
      before.generated ++ paths ++ done.flatten = before.generated ++ (paths :: done).flatten := by
    intro done
    rw [List.flatten_cons, List.append_assoc]
  cases h with
  | completed hdone =>
    rw [hflat]
    exact .completed (.next hget hdone)
  | @failed k _ _ _ _ _ _ hbefore hrequest hfails hnoted =>
    rw [hflat]
    exact .failed (k := k + 1) (.next hget hbefore) hrequest hfails hnoted
  | @raised k _ _ _ _ _ hbefore hrequest hraises hnot =>
    exact .raised (k := k + 1) (.next hget hbefore) hrequest hraises hnot

/-- Requests are carried out up to the first that does not complete. -/
theorem exists_carried (before : RunReport) (requests : List Request) (s : Session) :
    ∃ result t, (o.carryOut before requests).run s = (result, t) ∧ Carried o before requests s result t := by
  induction requests generalizing before s with
  | nil =>
    have hcarried : Carried o before [] s
        (.ok { before with generated := before.generated ++ ([] : List (List Path)).flatten }) s :=
      .completed .none
    rw [List.flatten_nil, List.append_nil] at hcarried
    exact ⟨.ok before, s, rfl, hcarried⟩
  | cons request rest ih =>
    rcases hrun : (o.carryOut before (request :: rest)).run s with ⟨result, t⟩
    refine ⟨result, t, rfl, ?_⟩
    cases carriesOut_of_run hrun with
    | @succeeded paths u _ _ hget hrest =>
      obtain ⟨other, v, hsame, hcarried⟩ := ih { before with generated := before.generated ++ paths } u
      rw [hrest] at hsame
      cases hsame
      exact hcarried.cons hget
    | @reported e u host hget hnoted =>
      have hcarried : Carried o before (request :: rest) s (.ok { before with
          generated := before.generated ++ ([] : List (List Path)).flatten,
          errors := before.errors ++ [e.describe] }) { u with host } :=
        .failed (k := 0) .none rfl hget hnoted
      rwa [List.flatten_nil, List.append_nil] at hcarried
    | raised hget hother => exact .raised (k := 0) .none rfl hget hother

/-- Where requests all complete, the one that comes after some of them completes. -/
theorem Completed.get_ok {done before : List (List Path)} {k : Nat} {request : Request}
    (h : Completed o s requests done t) (hbefore : Completed o s (requests.take k) before u)
    (hrequest : requests[k]? = some request) :
    ∃ paths v, ((o.getterFor request).get request).run u = (.ok paths, v) := by
  induction h generalizing k before with
  | none => simp at hrequest
  | next hget _ ih =>
    cases k with
    | zero =>
      cases hbefore
      cases hrequest
      exact ⟨_, _, hget⟩
    | succ k =>
      cases hbefore with
      | next hget' hrest' =>
        rw [hget] at hget'
        cases hget'
        exact ih hrest' hrequest

/-- Whether the host is steady and each of the requests is sane where it starts. -/
structure SaneFrom (o : RunOptions) (s : Session) (requests : List Request) : Prop where
  /-- The tree of the host is grounded, and its staging root can be said. -/
  steady : s.host.Steady o.stagingRoot
  /-- The output directories are paths that can be written. -/
  written : ∀ request ∈ requests, request.outputDirectory.Written
  /-- Each request is sane where it starts. -/
  sane : ∀ start ∈ o.starts requests s, o.Sane start

/-! ## Whole runs -/

/-- The names of a kind that a run is for: the given ones when there are any of either kind, and else those of the
configuration. -/
def namesFor (o : RunOptions) (project : Project) (kind : TargetKind) : List String :=
  if o.givesNames then o.names kind else project.names kind

/-- The language of a run: the given one, and else that of the configuration. -/
def languageFor (o : RunOptions) (project : Project) : Except GenerationError Language :=
  if o.language.isEmpty then .ok project.language else Language.parse o.language

/-- The output directory of a run: the given one, and else that of the configuration. -/
def outputFor (o : RunOptions) (project : Project) (root : Path) : Path :=
  root.child (if o.output.isEmpty then project.output else o.output)

/-- The requests of a run are one for its providers and then one for its modules, as far as there are any. -/
theorem requestsFor_eq (o : RunOptions) (project : Project) (language : Language) (output : Path) :
    o.requestsFor project language output =
      requestOf language output .provider (o.namesFor project .provider) ++
        requestOf language output .module (o.namesFor project .module) := by
  unfold requestsFor requestOf namesFor
  simp only [List.filterMap_cons, List.filterMap_nil]
  split <;> split <;> simp_all

/-- There is no request for some names when there are none. -/
theorem requestOf_eq_nil_iff {language : Language} {output : Path} {kind : TargetKind} {names : List String} :
    requestOf language output kind names = [] ↔ names = [] := by
  unfold requestOf
  split <;> simp_all

/-- The defaults of a run were loaded, which changed nothing or left a notice. -/
structure Loaded (o : RunOptions) (s : Session) (project : Project) (root : Path) (host : Host) : Prop where
  /-- This project and its directory are the defaults. -/
  loads : o.loadDefaults.run s.host = (.ok (project, root), host)
  /-- Nothing else changed than that a notice may have been left. -/
  logged : host = s.host ∨ Noted s.host host

/-- The ways in which a run ends. -/
inductive Ends (o : RunOptions) (s : Session) : Except Failure RunReport → Session → Prop
  /-- The configuration cannot be used. -/
  | unusable {fault : ConfigFault} (hload : o.loadDefaults.run s.host = (.error (.config fault), s.host)) :
      Ends o s (.ok { errors := [fault.message] }) s
  /-- The defaults cannot be loaded for another reason. -/
  | unloaded {failure : Failure} {host : Host} (hload : o.loadDefaults.run s.host = (.error failure, host))
      (hnot : ∀ fault, failure ≠ .config fault) : Ends o s (.error failure) { s with host }
  /-- The language does not exist. -/
  | unknown {project : Project} {root : Path} {host : Host} {e : GenerationError}
      (hload : o.Loaded s project root host) (hlanguage : o.languageFor project = .error e) :
      Ends o s (.ok { errors := [e.describe] }) { s with host }
  /-- There are no names. -/
  | idle {project : Project} {root : Path} {host : Host} {language : Language}
      (hload : o.Loaded s project root host) (hlanguage : o.languageFor project = .ok language)
      (hnone : ∀ kind, o.namesFor project kind = []) :
      Ends o s
        (.ok { language, outputDirectory := o.outputFor project root
               errors := ["No providers or modules to generate."] })
        { s with host }
  /-- The requests were carried out. -/
  | carried {project : Project} {root : Path} {host : Host} {language : Language} {requests : List Request}
      {result : Except Failure RunReport} {t : Session} (hload : o.Loaded s project root host)
      (hlanguage : o.languageFor project = .ok language)
      (hrequests : requests =
        requestOf language (o.outputFor project root) .provider (o.namesFor project .provider) ++
          requestOf language (o.outputFor project root) .module (o.namesFor project .module))
      (hsome : requests ≠ [])
      (hrun : (o.carryOut { language, outputDirectory := o.outputFor project root, requests } requests).run
        { s with host } = (result, t))
      (hcarried : Carried o { language, outputDirectory := o.outputFor project root, requests } requests
        { s with host } result t) :
      Ends o s result t

/-- A path that does not resolve is no fault of a configuration. -/
theorem ne_config_of_resolve_error {p : Path} {host host' : Host} {failure : Failure}
    (h : (Host.resolve p).run host = (.error failure, host')) (fault : ConfigFault) : failure ≠ .config fault := by
  obtain ⟨-, ⟨reason, -, rfl⟩ | ⟨-, -, rfl⟩ | ⟨-, -, -, rfl⟩⟩ := run_resolve_error h
  · cases reason <;> exact nofun
  · exact nofun
  · exact nofun

/-- Where the defaults of a run cannot be loaded for a fault of the configuration, nothing has changed. -/
theorem loadDefaults_of_config_error {fault : ConfigFault} {host host' : Host}
    (h : o.loadDefaults.run host = (.error (.config fault), host')) : host' = host := by
  cases loadsDefaults_of_run h with
  | lost | missing => rfl
  | unloaded _ hload => exact (run_load_error hload).1
  | unrooted _ _ hroot => exact absurd rfl (ne_config_of_resolve_error hroot fault)

/-- Where the defaults of a run are loaded, a notice was left at most. -/
theorem loaded_of_run_loadDefaults {project : Project} {root : Path} {host : Host}
    (h : o.loadDefaults.run s.host = (.ok (project, root), host)) : o.Loaded s project root host := by
  refine ⟨h, ?_⟩
  cases loadsDefaults_of_run h with
  | usual => exact .inl rfl
  | loaded _ hload => exact .inr (noted_of_run_load hload)

/-- A run ends in one of the ways in which it can. -/
theorem exists_ends (o : RunOptions) (s : Session) :
    ∃ result t, o.run.run s = (result, t) ∧ Ends o s result t := by
  rcases hload : o.loadDefaults.run s.host with ⟨failure | ⟨project, root⟩, host⟩
  · by_cases hconfig : ∃ fault, failure = .config fault
    · obtain ⟨fault, rfl⟩ := hconfig
      obtain rfl := loadDefaults_of_config_error hload
      exact ⟨_, s, run_of_config_error hload, .unusable hload⟩
    · have hnot : ∀ fault, failure ≠ .config fault := fun fault h => hconfig ⟨fault, h⟩
      exact ⟨_, _, run_of_loadDefaults_error hload hnot, .unloaded hload hnot⟩
  · have hloaded := loaded_of_run_loadDefaults hload
    have hrun := run_of_loaded hload
    cases hlanguage : o.languageFor project with
    | error e =>
      unfold languageFor at hlanguage
      rw [hlanguage] at hrun
      exact ⟨_, _, hrun, .unknown hloaded hlanguage⟩
    | ok language =>
      have hsame := hlanguage
      unfold languageFor at hsame
      rw [hsame] at hrun
      dsimp only at hrun
      have hplace : o.outputFor project root =
          root.child (if o.output.isEmpty then project.output else o.output) := rfl
      rw [o.run_runIn project root language hplace, requestsFor_eq] at hrun
      -- the requests of both kinds together; they are none when no names are asked for of either
      by_cases hnone : requestOf language (o.outputFor project root) .provider (o.namesFor project .provider) ++
          requestOf language (o.outputFor project root) .module (o.namesFor project .module) = []
      · have hkinds : ∀ kind, o.namesFor project kind = [] := by
          rw [List.append_eq_nil_iff, requestOf_eq_nil_iff, requestOf_eq_nil_iff] at hnone
          rintro (_ | _)
          · exact hnone.1
          · exact hnone.2
        refine ⟨_, _, hrun.trans ?_, .idle hloaded hlanguage hkinds⟩
        rw [hnone]
        rfl
      · obtain ⟨result, t, hcarry, hcarried⟩ := exists_carried
          { language, outputDirectory := o.outputFor project root
            requests := requestOf language (o.outputFor project root) .provider (o.namesFor project .provider) ++
              requestOf language (o.outputFor project root) .module (o.namesFor project .module) }
          (requestOf language (o.outputFor project root) .provider (o.namesFor project .provider) ++
            requestOf language (o.outputFor project root) .module (o.namesFor project .module)) { s with host }
        refine ⟨result, t, hrun.trans ?_, .carried hloaded hlanguage rfl hnone hcarry hcarried⟩
        rw [if_neg fun hempty => hnone (List.isEmpty_iff.1 hempty)]
        exact hcarry

/-- The report of requests that were carried out has at most one error, and none when all of them completed. -/
theorem Carried.report {before report : RunReport} (h : Carried o before requests s (.ok report) t)
    (hbefore : before.errors = []) (hrequests : before.requests = requests) (hgenerated : before.generated = []) :
    report.requests = requests ∧ report.errors.length ≤ 1 ∧
      (report.errors = [] ↔ ∃ done, Completed o s requests done t ∧ report.generated = done.flatten) := by
  generalize hresult : (Except.ok report : Except Failure RunReport) = result at h
  cases h with
  | @completed done _ hdone =>
    cases hresult
    refine ⟨hrequests, by simp [hbefore], fun _ => ⟨done, hdone, by simp [hgenerated]⟩, fun _ => hbefore⟩
  | failed hdone hrequest hget _ =>
    cases hresult
    refine ⟨hrequests, by simp [hbefore], fun hnone => by simp at hnone, ?_⟩
    rintro ⟨all, hall, -⟩
    obtain ⟨paths, v, hok⟩ := hall.get_ok hdone hrequest
    rw [hget] at hok
    cases hok
  | raised => cases hresult

/-- Where requests are sane where they start, nothing is raised. -/
theorem SaneFrom.exists_report (h : o.SaneFrom s requests) (before : RunReport) :
    ∃ report t, (o.carryOut before requests).run s = (.ok report, t) := by
  obtain ⟨report, t, hrun, -⟩ := run_carryOut_sane requests before h.written h.steady h.sane
  exact ⟨report, t, hrun⟩

/-- A run ends in one of the ways in which it can. Its report has at most one error, and it has none exactly when
there are requests and all of them completed, where what they gave is what was generated, in their order. What is
raised comes from loading the defaults, and is no fault of the configuration, or from a request that is not sane
where it starts. -/
theorem run_outcome (o : RunOptions) (s : Session) :
    ∃ result t, o.run.run s = (result, t) ∧ Ends o s result t ∧
      (∀ report, result = .ok report → report.errors.length ≤ 1 ∧
        (report.errors = [] ↔ report.requests ≠ [] ∧ ∃ project root host done, o.Loaded s project root host ∧
          Completed o { s with host } report.requests done t ∧ report.generated = done.flatten)) ∧
      ∀ failure, result = .error failure →
        (∃ host, o.loadDefaults.run s.host = (.error failure, host) ∧ ∀ fault, failure ≠ .config fault) ∨
        ∃ project root host language, o.Loaded s project root host ∧ o.languageFor project = .ok language ∧
          ¬o.SaneFrom { s with host } (o.requestsFor project language (o.outputFor project root)) := by
  obtain ⟨result, t, hrun, hends⟩ := exists_ends o s
  refine ⟨result, t, hrun, hends, ?_, ?_⟩
  · rintro report rfl
    generalize hresult : (Except.ok report : Except Failure RunReport) = result at hends
    cases hends with
    | unusable | unknown | idle =>
      cases hresult
      simp
    | unloaded => cases hresult
    | @carried project root host language requests _ _ hload hlanguage hrequests hsome _ hcarried =>
      subst hresult
      obtain ⟨hsame, hone, hiff⟩ := hcarried.report rfl rfl rfl
      rw [hsame]
      refine ⟨hone, hiff.trans ⟨?_, ?_⟩⟩
      · rintro ⟨done, hdone, hgenerated⟩
        exact ⟨hsome, project, root, host, done, hload, hdone, hgenerated⟩
      · rintro ⟨-, project', root', host', done, hload', hdone, hgenerated⟩
        have hboth := hload'.loads
        rw [hload.loads] at hboth
        cases hboth
        exact ⟨done, hdone, hgenerated⟩
  · rintro failure rfl
    generalize hresult : (Except.error failure : Except Failure RunReport) = result at hends
    cases hends with
    | unusable | unknown | idle => cases hresult
    | unloaded hload hnot =>
      cases hresult
      exact .inl ⟨_, hload, hnot⟩
    | @carried project root host language requests _ _ hload hlanguage hrequests _ hcarry _ =>
      subst hresult
      refine .inr ⟨project, root, host, language, hload, hlanguage, fun hsane => ?_⟩
      rw [requestsFor_eq, ← hrequests] at hsane
      obtain ⟨report, v, hreport⟩ := hsane.exists_report
        { language, outputDirectory := o.outputFor project root, requests }
      rw [hcarry] at hreport
      cases hreport

/-- A run whose staging root has a name that cannot be said. -/
def unsaidRun : RunOptions :=
  { language := "python", output := "out", providers := ["a"], stagingRoot := some (.ofString "a\x00b") }

/-- A run whose staging root cannot be said raises an error that is none of generation, although its defaults are
loaded and its output directory resolves. -/
theorem not_report_of_resolves :
    ¬∀ (o : RunOptions) (s : Session) (project : Project) (root resolved : Path) (host : Host),
      o.Loaded s project root host →
      (Host.resolve (o.outputFor project root)).run host = (.ok resolved, host) →
      ∃ report t, o.run.run s = (.ok report, t) := by
  intro hall
  have hload : unsaidRun.loadDefaults.run bareHost = (.ok ({}, .fromRoot ["w"]), bareHost) := rfl
  have hresolve : (Host.resolve (unsaidRun.outputFor {} (.fromRoot ["w"]))).run bareHost =
      (.ok (.fromRoot ["w", "out"]), bareHost) :=
    run_resolve_ok_iff.2 ⟨rfl, by decide, .inl rfl, by decide +kernel, by decide +kernel⟩
  obtain ⟨report, t, hrun⟩ := hall unsaidRun { host := bareHost, registry := standInTools } {} _ _ _
    ⟨hload, .inl rfl⟩ hresolve
  have hraises : (unsaidRun.run.run { host := bareHost, registry := standInTools }).1.toOption.isSome = false := by
    decide +kernel
  rw [hrun] at hraises
  cases hraises

end ProviderBindings.RunOptions
