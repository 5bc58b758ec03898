import ProviderBindings.ProjectRun
import ProviderBindings.Proofs.Turns

/-!
# What a run for a project leaves

A run makes one request for its providers and one for its modules, one after another, in one output
directory. `run_ok` takes a run that succeeds apart into these requests. Each request checks its own names and
writes its own index, so that what the second one does to what the first one left is told here:
`run_index` for the version index of TypeScript, and `run_generated` for the directories of Python.
-/

namespace ProviderBindings

open FileSystem

/-! ## Reading the configuration -/

namespace ConfigFile

/-- A configuration file that is found has a written path when the search starts at one. -/
theorem searchUpwards_written {fs : FileSystem} {limit : Nat} {directory path : Path}
    (hp : directory.Written) (h : searchUpwards fs limit directory = .ok (some path)) :
    path.Written := by
  induction limit generalizing directory with
  | zero => cases h
  | succ limit ih =>
    rw [searchUpwards] at h
    cases hfile : fs.isFile (directory.child fileName) with
    | error e => rw [hfile] at h; cases h
    | ok found =>
      rw [hfile] at h
      cases found with
      | true =>
        cases h
        exact hp.child fileName
      | false =>
        change (if directory.names.isEmpty then pure none
          else searchUpwards fs limit directory.parent) = Except.ok (some path) at h
        split at h
        · cases h
        · exact ih hp.parent h

/-- The search for a file leaves the host as it is. -/
theorem run_givenOrNearest_host {given : Option Path} {host host' : Host} {result : Except Failure (Option Path)}
    (h : (givenOrNearest given).run host = (result, host')) : host' = host := by
  cases given with
  | some p =>
    cases h
    rfl
  | none =>
    unfold givenOrNearest find? findFrom at h
    rw [run_bind, run_workingDirectory] at h
    by_cases hgone : isGone host.files.workingDirectory
    · rw [if_pos hgone] at h
      cases h
      rfl
    · rw [if_neg hgone] at h
      dsimp only at h
      rcases hresolve : (Host.resolve (.fromRoot host.files.workingDirectory)).run host with
        ⟨failure | directory, host₁⟩
      · rw [run_bind_of_error hresolve] at h
        cases h
        exact (run_resolve_error hresolve).1
      · obtain ⟨rfl, -⟩ := run_resolve_ok_iff.1 hresolve
        rw [run_bind_of_ok hresolve, run_hostLook] at h
        exact (outcome_eq_iff.1 h).2.symm

/-- What is known of the configuration file that a run uses. -/
theorem run_givenOrNearest_ok {given path : Option Path} {host host' : Host}
    (hs : host.files.Sound) (hg : ∀ p, given = some p → p.Written)
    (h : (givenOrNearest given).run host = (.ok path, host')) :
    host' = host ∧ ∀ p, path = some p → p.Written := by
  unfold givenOrNearest at h
  cases given with
  | some p =>
    cases h
    exact ⟨rfl, hg⟩
  | none =>
    unfold find? at h
    obtain ⟨start, host₁, hstart, h⟩ := exists_of_run_bind_ok h
    rw [run_workingDirectory] at hstart
    split at hstart
    · cases hstart
    · next hgone =>
      cases hstart
      unfold findFrom at h
      obtain ⟨directory, host₂, hresolve, hlook⟩ := exists_of_run_bind_ok h
      obtain ⟨rfl, -⟩ := run_resolve_ok_iff.1 hresolve
      rw [run_hostLook] at hlook
      have hroot : Rooted host₂.files host₂.files.workingDirectory := fun ht => hs.working ht
      have hproper := (hroot.proper hs (by simpa using hgone)).1
      obtain ⟨place, rfl, hplace⟩ := exists_proper_of_run_resolve hs hproper.written hresolve
      cases hsearch : searchUpwards host₂.files searchLimit (.fromRoot place) with
      | error e => rw [hsearch] at hlook; cases hlook
      | ok found =>
        rw [hsearch] at hlook
        cases hlook
        exact ⟨rfl, fun p hfound => searchUpwards_written hplace.written (hfound ▸ hsearch)⟩

/-- Reading a configuration file changes nothing. -/
theorem run_read_ok {path : Path} {project : Project} {host host' : Host}
    (h : (read path).run host = (.ok project, host')) : host' = host := by
  unfold read at h
  obtain ⟨found, host₁, hlook, hfound⟩ := exists_of_run_bind_ok h
  rw [run_hostLook] at hlook
  obtain rfl : host = host₁ := (outcome_eq_iff.1 hlook).2
  split at hfound
  · split at hfound <;> cases hfound
    rfl
  · cases hfound
  · cases hfound

/-- Loading a configuration file leaves notices in the log. -/
theorem noted_of_run_load {path : Path} {project : Project} {host host' : Host}
    (h : (load (some path)).run host = (.ok project, host')) : Noted host host' := by
  unfold load at h
  obtain ⟨same, host₁, hsame, h⟩ := exists_of_run_bind_ok h
  cases hsame
  obtain ⟨found, host₂, hread, h⟩ := exists_of_run_bind_ok h
  obtain ⟨⟨⟩, host₃, hnote, h⟩ := exists_of_run_bind_ok h
  cases h
  obtain rfl := run_read_ok hread
  obtain ⟨noted, hleave, hnoted⟩ := exists_run_note (.configLoaded path.name project.providers.length
    project.modules.length project.language.name) host₂
  cases hnote.symm.trans hleave
  exact hnoted

/-- Loading a configuration file changes the files at most by a line in the log file. -/
theorem run_load_ok {path : Path} {project : Project} {host host' : Host} (hs : host.files.Sound)
    (h : (load (some path)).run host = (.ok project, host')) :
    host'.files.Sound ∧ Carries host.files host'.files := by
  obtain ⟨line, hline⟩ := (noted_of_run_load h).files
  rw [hline]
  exact ⟨hs.writeHeld line, hs.carries_writeHeld line⟩

end ConfigFile

namespace RunOptions

variable {o : RunOptions} {s t : Session} {report : RunReport}

/-- What loading the defaults of a run comes to. -/
inductive LoadsDefaults (o : RunOptions) (host : Host) : Except Failure (Project × Path) → Host → Prop
  /-- The search for a configuration file fails. -/
  | lost {failure : Failure} (hgiven : (ConfigFile.givenOrNearest o.configPath).run host = (.error failure, host)) :
      LoadsDefaults o host (.error failure) host
  /-- There is no configuration file, and one is needed. -/
  | missing (hgiven : (ConfigFile.givenOrNearest o.configPath).run host = (.ok none, host))
      (hneeded : o.givesNames = false) : LoadsDefaults o host (.error (.config .missing)) host
  /-- None is needed, but the working directory is gone. -/
  | gone (hgiven : (ConfigFile.givenOrNearest o.configPath).run host = (.ok none, host)) :
      LoadsDefaults o host (.error (.system (.plain .notFound))) host
  /-- None is needed, and the usual settings will do. -/
  | usual (hgiven : (ConfigFile.givenOrNearest o.configPath).run host = (.ok none, host))
      (hthere : isGone host.files.workingDirectory = false) :
      LoadsDefaults o host (.ok ({}, .fromRoot host.files.workingDirectory)) host
  /-- The configuration file cannot be loaded. -/
  | unloaded {p : Path} {failure : Failure} {host' : Host}
      (hgiven : (ConfigFile.givenOrNearest o.configPath).run host = (.ok (some p), host))
      (hload : (ConfigFile.load (some p)).run host = (.error failure, host')) :
      LoadsDefaults o host (.error failure) host'
  /-- It is loaded, but its directory does not resolve. -/
  | unrooted {p : Path} {project : Project} {failure : Failure} {host' host'' : Host}
      (hgiven : (ConfigFile.givenOrNearest o.configPath).run host = (.ok (some p), host))
      (hload : (ConfigFile.load (some p)).run host = (.ok project, host'))
      (hroot : (ConfigFile.projectRoot p).run host' = (.error failure, host'')) :
      LoadsDefaults o host (.error failure) host''
  | loaded {p : Path} {project : Project} {root : Path} {host' : Host}
      (hgiven : (ConfigFile.givenOrNearest o.configPath).run host = (.ok (some p), host))
      (hload : (ConfigFile.load (some p)).run host = (.ok project, host'))
      (hroot : (ConfigFile.projectRoot p).run host' = (.ok root, host')) :
      LoadsDefaults o host (.ok (project, root)) host'

/-- The defaults of a run are loaded in one of these ways. -/
theorem loadsDefaults_of_run {host host' : Host} {result : Except Failure (Project × Path)}
    (h : o.loadDefaults.run host = (result, host')) : LoadsDefaults o host result host' := by
  unfold loadDefaults at h
  rcases hgiven : (ConfigFile.givenOrNearest o.configPath).run host with ⟨failure | found, host₁⟩
  · obtain rfl := ConfigFile.run_givenOrNearest_host hgiven
    rw [run_bind_of_error hgiven] at h
    cases h
    exact .lost hgiven
  · obtain rfl := ConfigFile.run_givenOrNearest_host hgiven
    rw [run_bind_of_ok hgiven] at h
    cases found with
    -- there are defaults without a file as well, when the options ask for enough
    | none =>
      dsimp only at h
      split at h
      · rw [run_bind, run_workingDirectory] at h
        by_cases hgone : isGone host₁.files.workingDirectory
        · rw [if_pos hgone] at h
          cases h
          exact .gone hgiven
        · rw [if_neg hgone] at h
          cases h
          exact .usual hgiven (by simpa using hgone)
      · next hneeded =>
        cases h
        exact .missing hgiven (by simpa using hneeded)
    | some p =>
      dsimp only at h
      rcases hload : (ConfigFile.load (some p)).run host₁ with ⟨failure | project, host₂⟩
      · rw [run_bind_of_error hload] at h
        cases h
        exact .unloaded hgiven hload
      · rw [run_bind_of_ok hload] at h
        rcases hroot : (ConfigFile.projectRoot p).run host₂ with ⟨failure | root, host₃⟩
        · rw [run_bind_of_error hroot] at h
          cases h
          exact .unrooted hgiven hload hroot
        · rw [run_bind_of_ok hroot] at h
          cases h
          obtain ⟨rfl, -⟩ := run_resolve_ok_iff.1 hroot
          exact .loaded hgiven hload hroot

/-- Loading the defaults of a run changes the files at most by a line in the log file, and gives a written
path for relative output paths to start from. -/
theorem run_loadDefaults_ok {host host' : Host} {project : Project} {root : Path}
    (hs : host.files.Sound) (hg : ∀ p, o.configPath = some p → p.Written)
    (h : o.loadDefaults.run host = (.ok (project, root), host')) :
    host'.files.Sound ∧ Carries host.files host'.files ∧ root.Written := by
  cases loadsDefaults_of_run h with
  | usual _ hthere =>
    have hroot : Rooted host.files host.files.workingDirectory := fun ht => hs.working ht
    exact ⟨hs, Carries.refl _, fun n hn => ((hroot.proper hs hthere).1 n hn).1⟩
  | loaded hgiven hload hroot =>
    obtain ⟨-, hwritten⟩ := ConfigFile.run_givenOrNearest_ok hs hg hgiven
    obtain ⟨hsound, hcarries⟩ := ConfigFile.run_load_ok hs hload
    obtain ⟨place, rfl, hproper⟩ := exists_proper_of_run_resolve hsound (hwritten _ rfl).parent hroot
    exact ⟨hsound, hcarries, hproper.written⟩

/-- The getter that a request of a run is carried out with. -/
def getterFor (o : RunOptions) (request : Request) : Getter :=
  { layout := .ofKind request.kind, stagingRoot := o.stagingRoot }

/-- What carrying out a request and others after it comes to. -/
inductive CarriesOut (o : RunOptions) (before : RunReport) (request : Request) (rest : List Request) (s : Session) :
    Except Failure RunReport → Session → Prop
  /-- The others are carried out once the request succeeded. -/
  | succeeded {paths : List Path} {u t : Session} {result : Except Failure RunReport}
      (hget : ((o.getterFor request).get request).run s = (.ok paths, u))
      (hrest : (o.carryOut { before with generated := before.generated ++ paths } rest).run u = (result, t)) :
      CarriesOut o before request rest s result t
  /-- Its error of generation is reported, and ends the run. -/
  | reported {e : GenerationError} {u : Session} {host : Host}
      (hget : ((o.getterFor request).get request).run s = (.error (.generation e), u)) (hnoted : Noted u.host host) :
      CarriesOut o before request rest s (.ok { before with errors := before.errors ++ [e.describe] }) { u with host }
  /-- No other failure is. -/
  | raised {failure : Failure} {u : Session} (hget : ((o.getterFor request).get request).run s = (.error failure, u))
      (hother : ∀ e, failure ≠ .generation e) : CarriesOut o before request rest s (.error failure) u

/-- Carrying out a request and others ends in one of these ways. -/
theorem carriesOut_of_run {before : RunReport} {request : Request} {rest : List Request}
    {result : Except Failure RunReport} (h : (o.carryOut before (request :: rest)).run s = (result, t)) :
    CarriesOut o before request rest s result t := by
  rw [carryOut] at h
  rcases hget : ((o.getterFor request).get request).run s with ⟨failure | paths, u⟩
  · have hattempt : (Run.attempt ((o.getterFor request).get request)).run s = (.ok (.error failure), u) := by
      rw [run_attempt, hget]
    have h := (run_bind_of_ok hattempt _).symm.trans h
    cases failure with
    | generation e =>
      obtain ⟨host, hnote, hnoted⟩ := exists_noted (.generationFailed e.describe) u
      dsimp only at h
      rw [run_bind_of_ok hnote] at h
      cases h
      exact .reported hget hnoted
    | _ =>
      cases h
      exact .raised hget fun e he => by cases he
  · have hattempt : (Run.attempt ((o.getterFor request).get request)).run s = (.ok (.ok paths), u) := by
      rw [run_attempt, hget]
    exact .succeeded hget ((run_bind_of_ok hattempt _).symm.trans h)

/-- Requests that are carried out with success succeed one after another. -/
theorem run_carryOut_cons_ok {before report : RunReport} {request : Request} {rest : List Request}
    (h : (o.carryOut before (request :: rest)).run s = (.ok report, t)) (hok : report.succeeded) :
    ∃ paths u, ((o.getterFor request).get request).run s = (.ok paths, u) ∧
      (o.carryOut { before with generated := before.generated ++ paths } rest).run u =
        (.ok report, t) := by
  cases carriesOut_of_run h with
  | succeeded hget hrest => exact ⟨_, _, hget, hrest⟩
  | reported => simp [RunReport.succeeded] at hok

/-- The last request that is carried out with success ends the run. -/
theorem run_carryOut_last_ok {before report : RunReport} {request : Request}
    (h : (o.carryOut before [request]).run s = (.ok report, t)) (hok : report.succeeded) :
    ∃ paths, ((o.getterFor request).get request).run s = (.ok paths, t) ∧
      report.generated = before.generated ++ paths := by
  obtain ⟨paths, u, hget, hrest⟩ := run_carryOut_cons_ok h hok
  rw [carryOut, run_pure] at hrest
  cases hrest
  exact ⟨paths, hget, rfl⟩

/-- What a report says about a run stays as it is while requests are carried out. -/
theorem run_carryOut_frame {before report : RunReport} {requests : List Request}
    (h : (o.carryOut before requests).run s = (.ok report, t)) :
    report.language = before.language ∧ report.outputDirectory = before.outputDirectory ∧
      report.requests = before.requests := by
  induction requests generalizing before s with
  | nil =>
    cases h
    exact ⟨rfl, rfl, rfl⟩
  | cons request rest ih =>
    cases carriesOut_of_run h with
    | reported => exact ⟨rfl, rfl, rfl⟩
    | succeeded _ hrest =>
      obtain ⟨hlanguage, hdirectory, hrequests⟩ := ih hrest
      exact ⟨hlanguage, hdirectory, hrequests⟩

/-- The request for some names of a kind, unless there are none. -/
def requestOf (language : Language) (output : Path) (kind : TargetKind) (names : List String) :
    List Request :=
  if names.isEmpty then [] else [{ language, outputDirectory := output, names, kind }]

/-- The requests of a run are at most one for each kind. -/
theorem exists_requestsFor_eq (o : RunOptions) (project : Project) (language : Language) (output : Path) :
    ∃ providers modules, o.requestsFor project language output =
      requestOf language output .provider providers ++ requestOf language output .module modules := by
  refine ⟨if o.givesNames then o.names .provider else project.names .provider,
    if o.givesNames then o.names .module else project.names .module, ?_⟩
  unfold requestsFor requestOf
  simp only [List.filterMap_cons, List.filterMap_nil]
  split <;> split <;> simp_all

/-- The names of a run are read back from its requests. -/
theorem names_of_requests {language : Language} {output : Path} {providers modules : List String}
    (h : report.requests = requestOf language output .provider providers ++
      requestOf language output .module modules) :
    report.names .provider = providers ∧ report.names .module = modules := by
  unfold RunReport.names
  rw [h]
  unfold requestOf
  by_cases hp : providers = [] <;> by_cases hm : modules = [] <;> simp [hp, hm]

/-- A configuration that cannot be used ends a run in an error. -/
theorem run_of_config_error {fault : ConfigFault} {host : Host}
    (h : o.loadDefaults.run s.host = (.error (.config fault), host)) :
    o.run.run s = (.ok { errors := [fault.message] }, { s with host }) := by
  have hattempt : (Run.attempt (Run.onHost o.loadDefaults)).run s =
      (.ok (.error (.config fault)), { s with host }) := by
    rw [run_attempt, run_onHost, h]
  unfold run
  rw [run_bind_of_ok hattempt]
  rfl

/-- Another failure to load the defaults ends a run. -/
theorem run_of_loadDefaults_error {failure : Failure} {host : Host}
    (h : o.loadDefaults.run s.host = (.error failure, host)) (hnot : ∀ fault, failure ≠ .config fault) :
    o.run.run s = (.error failure, { s with host }) := by
  have hattempt : (Run.attempt (Run.onHost o.loadDefaults)).run s = (.ok (.error failure), { s with host }) := by
    rw [run_attempt, run_onHost, h]
  unfold run
  rw [run_bind_of_ok hattempt]
  cases failure with
  | config fault => exact absurd rfl (hnot fault)
  | _ => rfl

/-- Once its defaults are loaded, a run goes on in its language, or ends in an error if there is no such language. -/
theorem run_of_loaded {project : Project} {root : Path} {host : Host}
    (h : o.loadDefaults.run s.host = (.ok (project, root), host)) :
    o.run.run s =
      match if o.language.isEmpty then Except.ok project.language else Language.parse o.language with
      | .error e => (.ok { errors := [e.describe] }, { s with host })
      | .ok language => (o.runIn project root language).run { s with host } := by
  have hattempt : (Run.attempt (Run.onHost o.loadDefaults)).run s = (.ok (.ok (project, root)), { s with host }) := by
    rw [run_attempt, run_onHost, h]
  unfold run
  rw [run_bind_of_ok hattempt]
  dsimp only
  generalize (if o.language.isEmpty then Except.ok project.language else Language.parse o.language) = language
  cases language <;> rfl

/-- A run in a language carries out its requests, unless there are none. -/
theorem run_runIn (o : RunOptions) (project : Project) (root : Path) (language : Language) {output : Path}
    (houtput : output = root.child (if o.output.isEmpty then project.output else o.output)) (s : Session) :
    (o.runIn project root language).run s =
      if (o.requestsFor project language output).isEmpty then
        (.ok { language, outputDirectory := output, requests := o.requestsFor project language output
               errors := ["No providers or modules to generate."] }, s)
      else
        (o.carryOut { language, outputDirectory := output, requests := o.requestsFor project language output }
          (o.requestsFor project language output)).run s := by
  unfold runIn
  rw [← houtput]
  dsimp only
  split <;> rfl

/-- A run that succeeds made a request for its providers and then one for its modules, and carried out
both. -/
theorem run_ok (h : o.run.run s = (.ok report, t)) (hok : report.succeeded) :
    ∃ (language : Language) (output : Path) (start : Session),
      start.host = (o.loadDefaults.run s.host).2 ∧
      (s.host.files.Sound → (∀ p, o.configPath = some p → p.Written) →
        start.host.files.Sound ∧ Carries s.host.files start.host.files ∧ output.Written) ∧
      report.language = some language ∧
      report.outputDirectory = some output ∧
      report.requests = requestOf language output .provider (report.names .provider) ++
        requestOf language output .module (report.names .module) ∧ report.requests ≠ [] ∧
      (o.carryOut { language, outputDirectory := output, requests := report.requests }
        report.requests).run start = (.ok report, t) := by
  rcases hload : o.loadDefaults.run s.host with ⟨failure | ⟨project, root⟩, host⟩
  · by_cases hconfig : ∃ fault, failure = .config fault
    · obtain ⟨fault, rfl⟩ := hconfig
      rw [run_of_config_error hload] at h
      cases h
      simp [RunReport.succeeded] at hok
    · rw [run_of_loadDefaults_error hload fun fault he => hconfig ⟨fault, he⟩] at h
      cases h
  · rw [run_of_loaded hload] at h
    split at h
    · cases h
      simp [RunReport.succeeded] at hok
    · next language hlanguage =>
      obtain ⟨output, houtput⟩ :
          ∃ p, p = root.child (if o.output.isEmpty then project.output else o.output) := ⟨_, rfl⟩
      have hstart : s.host.files.Sound → (∀ p, o.configPath = some p → p.Written) →
          host.files.Sound ∧ Carries s.host.files host.files ∧ output.Written := by
        intro hs hg
        obtain ⟨hsound, hcarries, hroot⟩ := run_loadDefaults_ok hs hg hload
        exact ⟨hsound, hcarries, houtput ▸ hroot.child _⟩
      rw [o.run_runIn project root language houtput] at h
      split at h
      · cases h
        simp [RunReport.succeeded] at hok
      · next hrequests =>
        obtain ⟨hlang, hdirectory, hsame⟩ := run_carryOut_frame h
        obtain ⟨providers, modules, hform⟩ := o.exists_requestsFor_eq project language output
        have hnames := names_of_requests (hsame.trans hform)
        refine ⟨language, output, { s with host }, rfl, hstart, hlang, hdirectory, ?_, ?_, ?_⟩
        · rw [hnames.1, hnames.2, ← hform]
          exact hsame
        · rw [hsame]
          simpa using hrequests
        · rw [hsame]
          exact h

/-! ## The version index of TypeScript -/

/-- The index of the last constraints lists all constraints exactly when the others are named like them. -/
theorem listed_versionTable_iff {P M : List Constraint} :
    (∀ c ∈ P ++ M, c.qualifiedName ∈ (versionTable (if M.isEmpty then P else M)).map (·.1)) ↔
      M = [] ∨ ∀ c ∈ P, ∃ d ∈ M, d.qualifiedName = c.qualifiedName := by
  by_cases hm : M = []
  · subst hm
    simp only [List.append_nil, List.isEmpty_nil, if_true, true_or, iff_true]
    exact fun c hc => mem_keys_versionTable.2 ⟨c, hc, rfl⟩
  · rw [if_neg (by simpa using hm)]
    constructor
    · exact fun h => .inr fun c hc => mem_keys_versionTable.1 (h c (List.mem_append_left _ hc))
    · intro h c hc
      refine mem_keys_versionTable.2 ?_
      rcases List.mem_append.1 hc with hc | hc
      · exact h.resolve_left hm c hc
      · exact ⟨c, hc, rfl⟩

/-- The version index that a run leaves. Every request of a run for TypeScript writes its index to one file,
so that after the run this file holds what the last request wrote: the constraints of the modules, or those
of the providers when there are no modules. So it has an entry for every constraint of the run exactly when
there are no modules, or every provider is named like one of them. -/
theorem run_index (hs : s.host.files.Sound) (hg : ∀ p, o.configPath = some p → p.Written)
    (h : o.run.run s = (.ok report, t)) (hok : report.succeeded)
    (hl : report.language = some .typescript) :
    ∃ (P M : List Constraint) (output : Path) (root : Location) (tree : FileSystem),
      (report.names .provider).map Constraint.resolve = P.map .ok ∧
      (report.names .module).map Constraint.resolve = M.map .ok ∧
      report.outputDirectory = some output ∧ Carries s.host.files tree ∧
      t.host.files.locate .follow (tree.resolve output) = .ok root ∧
      report.generated.getLast? = some ((Path.fromRoot root).child VersionIndex.fileName) ∧
      HoldsIndex t.host.files ((Path.fromRoot root).child VersionIndex.fileName)
        (if M.isEmpty then P else M) ∧
      (∀ entry ∈ versionTable (if M.isEmpty then P else M),
        ∃ c ∈ P ++ M, entry = (c.qualifiedName, c.versionOrAny)) ∧
      ((∀ c ∈ P ++ M,
          c.qualifiedName ∈ (versionTable (if M.isEmpty then P else M)).map (·.1)) ↔
        M = [] ∨ ∀ c ∈ P, ∃ d ∈ M, d.qualifiedName = c.qualifiedName) := by
  obtain ⟨language, output, start, -, hfirst, hlanguage, houtput, hform, hsome, hrun⟩ := run_ok h hok
  obtain ⟨hstart, hcarried, hp⟩ := hfirst hs hg
  obtain rfl : language = .typescript := Option.some.inj (hlanguage.symm.trans hl)
  have hentries : ∀ P M : List Constraint, ∀ entry ∈ versionTable (if M.isEmpty then P else M),
      ∃ c ∈ P ++ M, entry = (c.qualifiedName, c.versionOrAny) := by
    intro P M entry hentry
    obtain ⟨c, hc, he⟩ := exists_of_mem_versionTable hentry
    split at hc
    · exact ⟨c, List.mem_append_left _ hc, he⟩
    · exact ⟨c, List.mem_append_right _ hc, he⟩
  rw [hform] at hrun hsome
  by_cases hmodules : report.names .module = []
  · -- the request for the providers is the only one
    have hproviders : report.names .provider ≠ [] := by
      intro hno
      simp [hmodules, hno, requestOf] at hsome
    have hnone : requestOf .typescript output .module (report.names .module) = [] := by
      simp [requestOf, hmodules]
    rw [hnone, List.append_nil, requestOf, if_neg (by simpa using hproviders)] at hrun
    obtain ⟨paths, hget, hgenerated⟩ := run_carryOut_last_ok hrun hok
    obtain ⟨-, -, cs, root, hcs, hindex, hroot, hholds⟩ :=
      Getter.run_get_typescript_ok rfl hstart hp rfl hproviders hget
    refine ⟨cs, [], output, root, _, hcs, by simp [hmodules], houtput, hcarried, hroot, ?_, hholds,
      hentries cs [], listed_versionTable_iff⟩
    rw [hgenerated, List.getLast?_append, hindex]
    rfl
  · have hmodule : requestOf .typescript output .module (report.names .module) =
        [{ language := .typescript, outputDirectory := output, names := report.names .module,
           kind := .module }] := by
      rw [requestOf, if_neg (by simpa using hmodules)]
    rw [hmodule] at hrun
    -- what the request for the modules finds, and what it is to leave
    obtain ⟨P, tree, before, htree, hcarries, hresolved, hlast⟩ :
        ∃ (P : List Constraint) (tree : Session) (before : RunReport), tree.host.files.Sound ∧
          Carries s.host.files tree.host.files ∧
          (report.names .provider).map Constraint.resolve = P.map .ok ∧
          (o.carryOut before
            [{ language := .typescript, outputDirectory := output, names := report.names .module,
               kind := .module }]).run tree = (.ok report, t) := by
      by_cases hproviders : report.names .provider = []
      · have hnone : requestOf .typescript output .provider (report.names .provider) = [] := by
          simp [requestOf, hproviders]
        rw [hnone, List.nil_append] at hrun
        exact ⟨[], start, _, hstart, hcarried, by simp [hproviders], hrun⟩
      · rw [requestOf, if_neg (by simpa using hproviders), List.singleton_append] at hrun
        obtain ⟨paths, u, hget, hrest⟩ := run_carryOut_cons_ok hrun hok
        obtain ⟨hu, hcarries, cs, -, hcs, -⟩ :=
          Getter.run_get_typescript_ok rfl hstart hp rfl hproviders hget
        exact ⟨cs, u, _, hu, Carries.trans hcarried hcarries, hcs, hrest⟩
    obtain ⟨paths, hget, hgenerated⟩ := run_carryOut_last_ok hlast hok
    obtain ⟨-, -, cs, root, hcs, hindex, hroot, hholds⟩ :=
      Getter.run_get_typescript_ok rfl htree hp rfl hmodules hget
    have hne : cs.isEmpty = false := by
      cases cs with
      | nil => simp [hmodules] at hcs
      | cons c cs => rfl
    refine ⟨P, cs, output, root, _, hresolved, hcs, houtput, hcarries, hroot, ?_, ?_, hentries P cs,
      listed_versionTable_iff⟩
    · rw [hgenerated, List.getLast?_append, hindex]
      rfl
    · rw [hne]
      exact hholds

/-- Whether a run succeeded in a language. -/
def succeededIn (language : Language) (outcome : Except Failure RunReport × Session) : Bool :=
  match outcome.1 with
  | .ok report => report.succeeded && report.language == some language
  | .error _ => false

/-- What is known of a run that succeeded. -/
theorem exists_of_succeededIn {language : Language} {outcome : Except Failure RunReport × Session}
    (h : succeededIn language outcome = true) :
    ∃ report t, outcome = (.ok report, t) ∧ report.succeeded ∧ report.language = some language := by
  rcases outcome with ⟨failure | report, t⟩
  · cases h
  · simp only [succeededIn, Bool.and_eq_true, beq_iff_eq] at h
    exact ⟨report, t, rfl, h.1, h.2⟩

/-- A host with a working directory and no configuration file. -/
def bareHost : Host :=
  { files :=
      { entries := [(["w"], .directory), (["tmp"], .directory)], workingDirectory := ["w"] }
    temporary := .fromRoot ["tmp"] }

/-- The files of the bare host are sound. -/
theorem sound_bareHost : bareHost.files.Sound :=
  sound_of_entries (by decide) (by decide) fun _ h => by cases h

/-- A run for a provider and a module whose names differ. -/
def mixedRun : RunOptions :=
  { language := "typescript", output := "gen", providers := ["aws"], modules := ["org/mod"] }

/-- The run for a provider and a module succeeds. -/
theorem succeeded_mixedRun :
    succeededIn .typescript (mixedRun.run.run { host := bareHost }) = true := by
  decide +kernel

/-- The run for a provider and a module leaves the index of the one or the other. -/
theorem run_index_mixedRun :
    bareHost.files.Sound ∧ ∃ (report : RunReport) (t : Session) (P M : List Constraint) (root : Location),
      mixedRun.run.run { host := bareHost } = (.ok report, t) ∧ report.succeeded ∧
      report.language = some .typescript ∧
      (report.names .provider).map Constraint.resolve = P.map .ok ∧
      (report.names .module).map Constraint.resolve = M.map .ok ∧
      HoldsIndex t.host.files ((Path.fromRoot root).child VersionIndex.fileName)
        (if M.isEmpty then P else M) := by
  obtain ⟨report, t, hrun, hok, hl⟩ :
      ∃ report t, mixedRun.run.run { host := bareHost } = (.ok report, t) ∧ report.succeeded ∧
        report.language = some .typescript :=
    exists_of_succeededIn succeeded_mixedRun
  obtain ⟨P, M, -, root, -, hP, hM, -, -, -, -, hindex, -⟩ :=
    run_index sound_bareHost (fun _ h => by cases h) hrun hok hl
  exact ⟨sound_bareHost, report, t, P, M, root, hrun, hok, hl, hP, hM, hindex⟩

/-- The provider of the run for a provider and a module is not in the index that the run leaves. -/
theorem index_of_mixedRun :
    succeededIn .typescript (mixedRun.run.run { host := bareHost }) ∧
      (mixedRun.run.run { host := bareHost }).2.host.files.get? ["w", "gen", "versions.json"] =
        some (.file (.text "\x7b\n  \"org/mod\": \"*\"\n\x7d\n") false) :=
  ⟨succeeded_mixedRun, by decide +kernel⟩

/-! ## The directories of Python -/

/-- The places of constraints of a kind below an output directory. -/
def placesIn (output : Path) (kind : TargetKind) (cs : List Constraint) : List Path :=
  cs.map fun c => output.child (importName (c.source kind))

/-- Two lists of places have none in common when no two of their constraints have one place. -/
theorem disjoint_placesIn_iff {first second : Path} {P M : List Constraint} :
    (placesIn first .provider P).Disjoint (placesIn second .module M) ↔
      ∀ c ∈ P, ∀ d ∈ M, first.child (importName (c.source .provider)) ≠
        second.child (importName (d.source .module)) := by
  unfold placesIn List.Disjoint
  constructor
  · intro h c hc d hd he
    exact h (List.mem_map_of_mem hc) (List.mem_map.2 ⟨d, hd, he.symm⟩)
  · intro h place hp hm
    obtain ⟨c, hc, rfl⟩ := List.mem_map.1 hp
    obtain ⟨d, hd, he⟩ := List.mem_map.1 hm
    exact h c hc d hd he.symm

/-- Two lists of places without repetitions are without repetitions together when no two of their
constraints have one place. -/
theorem nodup_placesIn_iff {first second : Path} {P M : List Constraint}
    (hp : (placesIn first .provider P).Nodup) (hm : (placesIn second .module M).Nodup) :
    (placesIn first .provider P ++ placesIn second .module M).Nodup ↔
      ∀ c ∈ P, ∀ d ∈ M, first.child (importName (c.source .provider)) ≠
        second.child (importName (d.source .module)) := by
  rw [List.nodup_append', disjoint_placesIn_iff]
  exact ⟨fun h => h.2.2, fun h => ⟨hp, hm, h⟩⟩

/-- A run for Python that succeeds generated the places of its providers and then those of its modules, each
without repetitions. -/
theorem run_python_ok {output : Path} {before : RunReport} {providers modules : List String}
    {start : Session}
    (h : (o.carryOut before (requestOf .python output .provider providers ++
      requestOf .python output .module modules)).run start = (.ok report, t)) (hok : report.succeeded) :
    ∃ (P M : List Constraint) (tree : FileSystem),
      providers.map Constraint.resolve = P.map .ok ∧ modules.map Constraint.resolve = M.map .ok ∧
      report.generated = before.generated ++
        (placesIn (start.host.files.resolve output) .provider P ++
          placesIn (tree.resolve output) .module M) ∧
      (placesIn (start.host.files.resolve output) .provider P).Nodup ∧
      (placesIn (tree.resolve output) .module M).Nodup := by
  -- the request for modules is the last, whether or not there was one for providers
  have hmodule : ∀ {before : RunReport} {u : Session},
      (o.carryOut before (requestOf .python output .module modules)).run u = (.ok report, t) →
      ∃ M : List Constraint, modules.map Constraint.resolve = M.map .ok ∧
        report.generated = before.generated ++ placesIn (u.host.files.resolve output) .module M ∧
        (placesIn (u.host.files.resolve output) .module M).Nodup := by
    intro before u hu
    by_cases hnone : modules = []
    · rw [requestOf, if_pos (by simpa using hnone)] at hu
      cases hu
      exact ⟨[], by simp [hnone], by simp [placesIn], List.nodup_nil⟩
    · rw [requestOf, if_neg (by simpa using hnone)] at hu
      obtain ⟨paths, hget, hgenerated⟩ := run_carryOut_last_ok hu hok
      obtain ⟨M, hM, rfl, hnodup⟩ := Getter.run_get_python_ok rfl hnone hget
      exact ⟨M, hM, hgenerated, hnodup⟩
  by_cases hnone : providers = []
  · rw [requestOf, if_pos (by simpa using hnone), List.nil_append] at h
    obtain ⟨M, hM, hgenerated, hnodup⟩ := hmodule h
    exact ⟨[], M, start.host.files, by simp [hnone], hM, by simpa [placesIn] using hgenerated,
      List.nodup_nil, hnodup⟩
  · rw [requestOf, if_neg (by simpa using hnone), List.singleton_append] at h
    obtain ⟨paths, u, hget, hrest⟩ := run_carryOut_cons_ok h hok
    obtain ⟨P, hP, rfl, hnodup⟩ := Getter.run_get_python_ok rfl hnone hget
    obtain ⟨M, hM, hgenerated, hnodup'⟩ := hmodule hrest
    refine ⟨P, M, u.host.files, hP, hM, ?_, hnodup, hnodup'⟩
    rw [hgenerated, List.append_assoc]
    rfl

/-- The directories that a run for Python generates: those of its providers, and after them those of its
modules. None of the providers is put where another one is, and no module where another one is. Each
request resolves the output directory for itself; where both come to one directory, a module takes the
place of a provider exactly when the qualified name of the one and the short name of the other have
one import name. -/
theorem run_generated (h : o.run.run s = (.ok report, t)) (hok : report.succeeded)
    (hl : report.language = some .python) :
    ∃ (P M : List Constraint) (output first second : Path) (tree : FileSystem),
      (report.names .provider).map Constraint.resolve = P.map .ok ∧
      (report.names .module).map Constraint.resolve = M.map .ok ∧
      report.outputDirectory = some output ∧
      first = (o.loadDefaults.run s.host).2.files.resolve output ∧ second = tree.resolve output ∧
      report.generated = placesIn first .provider P ++ placesIn second .module M ∧
      (placesIn first .provider P).Nodup ∧ (placesIn second .module M).Nodup ∧
      (report.generated.Nodup ↔ ∀ c ∈ P, ∀ d ∈ M,
        first.child (importName (c.source .provider)) ≠
          second.child (importName (d.source .module))) ∧
      (first = second → (report.generated.Nodup ↔ ∀ c ∈ P, ∀ d ∈ M,
        importName (c.source .provider) ≠ importName (d.source .module))) := by
  obtain ⟨language, output, start, hstart, -, hlanguage, houtput, hform, -, hrun⟩ := run_ok h hok
  obtain rfl : language = .python := Option.some.inj (hlanguage.symm.trans hl)
  rw [hform] at hrun
  obtain ⟨P, M, tree, hP, hM, hgenerated, hnodup, hnodup'⟩ := run_python_ok hrun hok
  rw [List.nil_append] at hgenerated
  have hiff := nodup_placesIn_iff hnodup hnodup'
  rw [← hgenerated] at hiff
  refine ⟨P, M, output, _, _, tree, hP, hM, houtput, by rw [hstart], rfl, hgenerated, hnodup,
    hnodup', hiff, fun hsame => ?_⟩
  rw [hiff, hsame]
  refine forall₂_congr fun c hc => forall₂_congr fun d hd => ?_
  have hc := Constraint.segmented_of_mem hP hc .provider
  have hd := Constraint.segmented_of_mem hM hd .module
  exact not_congr (hc.child_importName_inj hd)

/-- A compiler that does nothing and a packager that writes a package for every source. -/
def standInTools : Registry :=
  { tools :=
      [("jsii", .standIn { name := "jsii" }),
       ("jsii-pacmak", .standIn
         { name := "jsii-pacmak"
           effect := fun context => Host.withFiles do
             let source := context.action.forTarget.getD ""
             let package := Harvester.sourcePath (Path.ofString context.workingDirectory)
               (importName source)
             makeDirectories package
             writeText (package.child "__init__.py") ("# " ++ source) })] }

/-- A run for a provider and a module that have one import name. -/
def clashingRun : RunOptions :=
  { language := "python", output := "gen", providers := ["x/a"], modules := ["a"] }

/-- What an outcome says was generated. -/
def generatedIn (outcome : Except Failure RunReport × Session) : List Path :=
  match outcome.1 with
  | .ok report => report.generated
  | .error _ => []

/-- The clashing run succeeds, and generates one directory for its provider and its module. -/
theorem outcome_clashingRun :
    succeededIn .python (clashingRun.run.run { host := bareHost, registry := standInTools }) = true ∧
      generatedIn (clashingRun.run.run { host := bareHost, registry := standInTools }) =
        [.fromRoot ["w", "gen", "a"], .fromRoot ["w", "gen", "a"]] := by
  decide +kernel

/-- What the clashing run generates has a repetition. -/
theorem run_generated_clashingRun :
    ∃ (report : RunReport) (t : Session) (P M : List Constraint) (first second : Path),
      clashingRun.run.run { host := bareHost, registry := standInTools } = (.ok report, t) ∧
      report.succeeded ∧ report.language = some .python ∧
      report.generated = placesIn first .provider P ++ placesIn second .module M ∧
      ¬∀ c ∈ P, ∀ d ∈ M, first.child (importName (c.source .provider)) ≠
        second.child (importName (d.source .module)) := by
  obtain ⟨hsucceeded, hgenerated⟩ := outcome_clashingRun
  obtain ⟨report, t, hrun, hok, hl⟩ := exists_of_succeededIn hsucceeded
  obtain ⟨P, M, -, first, second, -, -, -, -, -, -, hplaces, -, -, hiff, -⟩ :=
    run_generated hrun hok hl
  refine ⟨report, t, P, M, first, second, hrun, hok, hl, hplaces, fun hdistinct => ?_⟩
  rw [← hiff] at hdistinct
  rw [hrun] at hgenerated
  change report.generated = _ at hgenerated
  rw [hgenerated] at hdistinct
  exact absurd hdistinct (by decide)

/-- Not every run for Python that succeeds generates different directories. -/
theorem not_nodup_generated :
    ¬∀ (o : RunOptions) (s t : Session) (report : RunReport), o.run.run s = (.ok report, t) →
      report.succeeded → report.language = some .python → report.generated.Nodup := by
  intro hall
  obtain ⟨hsucceeded, hgenerated⟩ := outcome_clashingRun
  obtain ⟨report, t, hrun, hok, hl⟩ := exists_of_succeededIn hsucceeded
  have hdistinct := hall _ _ _ _ hrun hok hl
  rw [hrun] at hgenerated
  change report.generated = _ at hgenerated
  rw [hgenerated] at hdistinct
  exact absurd hdistinct (by decide)

end RunOptions

end ProviderBindings
