import ProviderBindings.Proofs.Turns

/-!
# The courses of requests

Every way in which a request can end, with nothing assumed but that the code is that of the bindings.
`Course` follows a request through its steps up to the first that fails: the output directory is resolved
and made, the language and the names are checked, and then the code is saved, or the names have their turns
and the output directory is finished. `run_get_course` says that a run is always one of the courses, and
tells the dispatches it made.
-/

namespace ProviderBindings

open FileSystem

/-- The dispatches that a run adds to those of a session. -/
def Session.dispatchesOf {α : Type} (s : Session) (work : Run α) : List Dispatch :=
  (work.run s).2.dispatches.drop s.dispatches.length

/-- The dispatches that a run adds are those after the ones made before it. -/
theorem Session.dispatchesOf_eq {α : Type} {s t : Session} {work : Run α} {result : Except Failure α}
    {ds : List Dispatch} (hrun : work.run s = (result, t)) (h : t.dispatches = s.dispatches ++ ds) :
    s.dispatchesOf work = ds := by
  unfold dispatchesOf
  rw [hrun, h]
  exact List.drop_left

namespace Getter

variable {g : Getter} {request : Request} {harvester : Harvester} {code : Emitter} {s : Session}

/-- Whether the output directory of a request was resolved and made, with the files it left. -/
structure Opened (request : Request) (start : Host) (output : Path) (files : FileSystem) : Prop where
  /-- The path of the request resolves to it. -/
  resolved : (Host.resolve request.outputDirectory).run start = (.ok output, start)
  /-- It is made with its parents, as far as they are missing. -/
  made : (makeDirectories output).run start.files = (.ok (), files)

/-- Whether a request has names that are accepted for a language that can be produced, with the code emitted
for them. -/
structure Accepted (g : Getter) (request : Request) (harvester : Harvester) (code : Emitter) : Prop where
  /-- The language can be produced, and this harvester collects what is. -/
  harvester : Harvester.ofLanguage request.language = .ok harvester
  /-- There are names. -/
  nonempty : request.names ≠ []
  /-- The names pass the check for collisions. -/
  distinct : checkCollisions request.names request.language request.kind = .ok ()
  /-- The code is what is emitted for them, whatever the session is. -/
  emission : ∀ s, (g.emission request).run s = (.ok code, s)
  /-- The code can be put beside a manifest. -/
  stageable : code.Stageable

/-- The code of the bindings is emitted for every request with names that pass the check. -/
theorem IsStandard.exists_accepted (hg : g.IsStandard)
    (hharvester : Harvester.ofLanguage request.language = .ok harvester) (hne : request.names ≠ [])
    (hcheck : checkCollisions request.names request.language request.kind = .ok ()) :
    ∃ code, Accepted g request harvester code := by
  obtain ⟨cs, hcs, -⟩ := checkCollisions_ok_iff.1 hcheck
  obtain ⟨code, hcode, hemission⟩ := hg.exists_emission hcs
  exact ⟨code, hharvester, hne, hcheck, hemission, hcode⟩

/-- The names of an accepted request resolve, and have different keys. -/
theorem Accepted.exists_constraints (h : Accepted g request harvester code) :
    ∃ cs : List Constraint, request.names.map Constraint.resolve = cs.map .ok ∧
      (cs.map fun c => outputKey request.language (c.source request.kind)).Nodup :=
  checkCollisions_ok_iff.1 h.distinct

/-- A language that can be produced and is not saved as it is has packages to collect. -/
theorem Accepted.harvester_eq (h : Accepted g request harvester code)
    (hl : request.language.isPrimary = false) :
    request.language = .python ∧ harvester = .package := by
  have hsome := h.harvester
  revert hl hsome
  cases request.language with
  | typescript => exact fun hl => nomatch hl
  | python => exact fun _ hsome => ⟨rfl, (Except.ok.inj hsome).symm⟩
  | dotnet => exact fun _ hsome => nomatch hsome
  | java => exact fun _ hsome => nomatch hsome

/-- The course of a request: the host it starts on, the dispatches it makes, what comes of it, and the host
it is left on. -/
inductive Course (g : Getter) (request : Request) :
    Host → List Dispatch → Except Failure (List Path) → Host → Prop
  /-- The output directory does not resolve. -/
  | unresolved {start failure}
      (h : (Host.resolve request.outputDirectory).run start = (.error failure, start)) :
      Course g request start [] (.error failure) start
  /-- The output directory cannot be made. -/
  | unmade {start output failure files}
      (hresolve : (Host.resolve request.outputDirectory).run start = (.ok output, start))
      (h : (makeDirectories output).run start.files = (.error failure, files)) :
      Course g request start [] (.error ((Host.failureOf failure).inStage none "output"))
        { start with files }
  /-- The language cannot be produced. -/
  | unsupported {start output files e} (hopened : Opened request start output files)
      (h : Harvester.ofLanguage request.language = .error e) :
      Course g request start [] (.error (.generation e)) { start with files }
  /-- Nothing is asked for. -/
  | idle {start output files harvester stop} (hopened : Opened request start output files)
      (hharvester : Harvester.ofLanguage request.language = .ok harvester)
      (hnone : request.names = []) (h : Noted { start with files } stop) :
      Course g request start [] (.ok []) stop
  /-- A name does not resolve, or collides with another. -/
  | rejected {start output files harvester failure} (hopened : Opened request start output files)
      (hharvester : Harvester.ofLanguage request.language = .ok harvester)
      (hne : request.names ≠ [])
      (h : checkCollisions request.names request.language request.kind = .error failure) :
      Course g request start [] (.error failure) { start with files }
  /-- The output directory that was made does not resolve again. -/
  | lost {start output files harvester code failure} (hopened : Opened request start output files)
      (haccepted : Accepted g request harvester code) (hl : request.language.isPrimary = true)
      (h : (Host.resolve output).run { start with files } = (.error failure, { start with files })) :
      Course g request start [] (.error (failure.inStage none "save")) { start with files }
  /-- The code cannot be saved. -/
  | unsaved {start output files harvester code root failure saved}
      (hopened : Opened request start output files)
      (haccepted : Accepted g request harvester code) (hl : request.language.isPrimary = true)
      (hroot : (Host.resolve output).run { start with files } = (.ok root, { start with files }))
      (h : (code.saveFiles root).run files = (.error failure, saved)) :
      Course g request start [] (.error ((Host.failureOf failure).inStage none "save"))
        { start with files := saved }
  /-- The code is saved. -/
  | saved {start output files harvester code root paths saved stop}
      (hopened : Opened request start output files)
      (haccepted : Accepted g request harvester code) (hl : request.language.isPrimary = true)
      (hroot : (Host.resolve output).run { start with files } = (.ok root, { start with files }))
      (hsave : (code.saveFiles root).run files = (.ok paths, saved))
      (h : Noted { start with files := saved } stop) :
      Course g request start [] (.ok paths) stop
  /-- The turn of a name fails. -/
  | stopped {start output files harvester code ds failure stop}
      (hopened : Opened request start output files)
      (haccepted : Accepted g request harvester code) (hl : request.language.isPrimary = false)
      (h : Turns g code request harvester output request.names { start with files } ds
        (.error failure) stop) :
      Course g request start ds (.error failure) stop
  /-- All names have had their turns, and the output directory cannot be finished. -/
  | unfinished {start output files harvester code ds paths middle failure stop}
      (hopened : Opened request start output files)
      (haccepted : Accepted g request harvester code) (hl : request.language.isPrimary = false)
      (hturns : Turns g code request harvester output request.names { start with files } ds
        (.ok paths) middle)
      (h : (harvester.finalize output).run middle = (.error failure, stop)) :
      Course g request start ds (.error (failure.inStage none "harvest")) stop
  /-- All names have had their turns, and the output directory is finished. -/
  | finished {start output files harvester code ds paths middle stop}
      (hopened : Opened request start output files)
      (haccepted : Accepted g request harvester code) (hl : request.language.isPrimary = false)
      (hturns : Turns g code request harvester output request.names { start with files } ds
        (.ok paths) middle)
      (h : (harvester.finalize output).run middle = (.ok (), stop)) :
      Course g request start ds (.ok paths) stop

/-- Code that is closed is saved as far as its directory resolves and its files can be written. -/
theorem run_save (hclosed : code.current = none) (directory : Path) (s : Session) :
    (save code directory).run s = (Run.onHost (do
      let root ← Host.resolve directory
      Host.withFiles (code.saveFiles root))).run s := by
  unfold save
  rw [hclosed]

/-- A request whose names are accepted goes on with its code once its output directory was made. -/
theorem run_get_of_accepted {output : Path} {files : FileSystem} (hopened : Opened request s.host output files)
    (haccepted : Accepted g request harvester code) :
    (g.get request).run s =
      (g.produce request harvester code output).run { s with host := { s.host with files } } := by
  have hresolve : (Run.onHost (Host.resolve request.outputDirectory)).run s = (.ok output, s) :=
    run_onHost_ok_iff.2 ⟨_, hopened.resolved, rfl⟩
  have hmake : (Run.onHost (Host.withFiles (makeDirectories output))).run s =
      (.ok (), { s with host := { s.host with files } }) :=
    run_onHost_ok_iff.2 ⟨_, run_withFiles_ok_iff.2 ⟨_, hopened.made, rfl⟩, rfl⟩
  have hpass : (get.liftExcept (checkCollisions request.names request.language request.kind)).run
      { s with host := { s.host with files } } = (.ok (), { s with host := { s.host with files } }) := by
    rw [haccepted.distinct]
    rfl
  unfold get
  rw [run_bind_of_ok hresolve, run_bind_of_ok (run_inStage_ok_iff.2 hmake), haccepted.harvester]
  dsimp only
  rw [if_neg (by simpa using haccepted.nonempty), run_bind_of_ok hpass,
    run_bind_of_ok (run_inStage_ok_iff.2 (haccepted.emission _))]
  rfl

/-- The course of a request whose code is saved as it is, from the code on. -/
theorem run_accepted_primary {start : Host} {output : Path} {files : FileSystem}
    (hopened : Opened request start output files) (haccepted : Accepted g request harvester code)
    (hl : request.language.isPrimary = true) (s : Session) (hs : s.host = { start with files }) :
    ∃ result t, (g.produce request harvester code output).run s = (result, t) ∧
      t.dispatches = s.dispatches ∧ Course g request start [] result t.host := by
  unfold produce
  rw [if_pos hl]
  have hsave := run_save haccepted.stageable.closed output s
  rw [run_onHost, run_bind, hs] at hsave
  rcases hroot : (Host.resolve output).run { start with files } with ⟨failure | root, host⟩
  · obtain ⟨rfl, -⟩ := run_resolve_error hroot
    rw [hroot] at hsave
    rw [run_bind_of_error (run_inStage_of_error hsave none "save")]
    exact ⟨_, _, rfl, rfl, .lost hopened haccepted hl hroot⟩
  obtain ⟨rfl, -⟩ := run_resolve_ok_iff.1 hroot
  rw [hroot] at hsave
  dsimp only at hsave
  rw [run_withFiles] at hsave
  rcases hfiles : (code.saveFiles root).run files with ⟨failure | paths, saved⟩
  · rw [hfiles] at hsave
    rw [run_bind_of_error (run_inStage_of_error hsave none "save")]
    exact ⟨_, _, rfl, rfl, .unsaved hopened haccepted hl hroot hfiles⟩
  · rw [hfiles] at hsave
    rw [run_bind_of_ok (run_inStage_ok_iff.2 hsave)]
    obtain ⟨noted, hnote, hnoted⟩ := exists_noted (.saved paths.length output.text)
      { s with host := { start with files := saved } }
    rw [run_bind_of_ok hnote]
    exact ⟨_, _, rfl, rfl, .saved hopened haccepted hl hroot hfiles hnoted⟩

/-- The course of a request whose names are built one after another, from the code on. -/
theorem run_accepted_secondary {start : Host} {output : Path} {files : FileSystem}
    (hopened : Opened request start output files) (haccepted : Accepted g request harvester code)
    (hl : request.language.isPrimary = false) (s : Session) (hs : s.host = { start with files }) :
    ∃ ds result t, (g.produce request harvester code output).run s = (result, t) ∧
      t.dispatches = s.dispatches ++ ds ∧ Course g request start ds result t.host := by
  obtain ⟨cs, hcs, -⟩ := haccepted.exists_constraints
  obtain ⟨ds, built, u, hall, hdispatches, hturns⟩ := run_mapM_buildOne_turns g request
    harvester output haccepted.stageable.closed hcs s
  rw [hs] at hturns
  rcases hrun : (g.produce request harvester code output).run s with ⟨result, t⟩
  -- the turns and the ways of building tell of one run over the names
  cases builds_of_run hl hrun with
  | stopped h =>
    cases hall.symm.trans h
    exact ⟨ds, _, _, rfl, hdispatches, .stopped hopened haccepted hl hturns⟩
  | unfinished h hfinish =>
    cases hall.symm.trans h
    exact ⟨ds, _, _, rfl, hdispatches, .unfinished hopened haccepted hl hturns hfinish⟩
  | finished h hfinish =>
    cases hall.symm.trans h
    exact ⟨ds, _, _, rfl, hdispatches, .finished hopened haccepted hl hturns hfinish⟩

/-- A request always takes one of the courses. -/
theorem run_get_course (hg : g.IsStandard) (request : Request) (s : Session) :
    ∃ ds result t, (g.get request).run s = (result, t) ∧ t.dispatches = s.dispatches ++ ds ∧
      Course g request s.host ds result t.host := by
  by_cases hproduced : ∃ output files harvester code, Opened request s.host output files ∧
      Accepted g request harvester code
  · obtain ⟨output, files, harvester, code, hopened, haccepted⟩ := hproduced
    rw [run_get_of_accepted hopened haccepted]
    by_cases hl : request.language.isPrimary = true
    · obtain ⟨result, t, hrun, hdispatches, hcourse⟩ := run_accepted_primary hopened haccepted hl
        { s with host := { s.host with files } } rfl
      exact ⟨[], result, t, hrun, by rw [hdispatches, List.append_nil], hcourse⟩
    · exact run_accepted_secondary hopened haccepted (by simpa using hl) _ rfl
  -- from here on the request ends before it has code, and no tool is asked to act
  have hnone : ∀ u : Session, u.dispatches = s.dispatches →
      u.dispatches = s.dispatches ++ [] := fun u hu => by rw [hu, List.append_nil]
  unfold get
  rw [run_bind, run_onHost]
  rcases hresolve : (Host.resolve request.outputDirectory).run s.host with ⟨failure | output, host⟩
  · obtain ⟨rfl, -⟩ := run_resolve_error hresolve
    exact ⟨[], _, _, rfl, hnone _ rfl, .unresolved hresolve⟩
  obtain ⟨rfl, -⟩ := run_resolve_ok_iff.1 hresolve
  dsimp only
  rw [run_bind, run_inStage, run_onHost, run_withFiles]
  rcases hmake : (makeDirectories output).run s.host.files with ⟨failure | ⟨⟩, files⟩
  · exact ⟨[], _, _, rfl, hnone _ rfl, .unmade hresolve hmake⟩
  have hopened : Opened request s.host output files := ⟨hresolve, hmake⟩
  dsimp only [Except.mapError]
  cases hharvester : Harvester.ofLanguage request.language with
  | error e => exact ⟨[], _, _, rfl, hnone _ rfl, .unsupported hopened hharvester⟩
  | ok harvester =>
    dsimp only
    by_cases hnames : request.names = []
    · obtain ⟨noted, hnote, hnoted⟩ := exists_noted (.nothingRequested request.kind)
        { s with host := { s.host with files } }
      rw [if_pos (by simpa using hnames), run_bind_of_ok hnote]
      exact ⟨[], _, _, rfl, hnone _ rfl, .idle hopened hharvester hnames hnoted⟩
    · rw [if_neg (by simpa using hnames)]
      cases hcheck : checkCollisions request.names request.language request.kind with
      | error failure =>
        exact ⟨[], _, _, rfl, hnone _ rfl, .rejected hopened hharvester hnames hcheck⟩
      | ok _ =>
        obtain ⟨code, haccepted⟩ := hg.exists_accepted hharvester hnames hcheck
        exact absurd ⟨output, files, harvester, code, hopened, haccepted⟩ hproduced

end Getter

end ProviderBindings
