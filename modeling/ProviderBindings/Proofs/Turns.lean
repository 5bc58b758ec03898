import ProviderBindings.Proofs.Building

/-!
# The turns of names

Every way in which work on a name can end, with nothing assumed of files, tools or staging root. `Staged`
is what happens inside a staging directory, `Turn` puts the making and the removal of the directory around
it, and `Turns` takes one name after another up to the first that fails. Each tells the dispatches that
were made, what came of the work, and the host that was left; `run_buildOne_turn` and
`run_mapM_buildOne_turns` say that a run always is one of them. What holds of every request is then shown
by cases on a turn and by induction on turns, and the code is not unfolded again.
-/

namespace ProviderBindings

open FileSystem

/-! ## Failures in stages -/

namespace Failure

/-- A failure that has been put into a stage with a target stays in that stage. -/
theorem inStage_inStage (failure : Failure) (name stage : String) (target : Option String)
    (outer : String) :
    (failure.inStage (some name) stage).inStage target outer = failure.inStage (some name) stage := by
  cases failure with
  | generation e =>
    obtain ⟨cause, who, where'⟩ := e
    cases who <;> cases where' <;> rfl
  | system e => rfl
  | _ => rfl

end Failure

/-- A host after a staging directory was removed, as far as it could be. -/
def Staging.released (directory : Path) (host : Host) : Host :=
  { host with files := ((removeTree directory).run host.files).2 }

namespace Getter

variable {g : Getter} {request : Request} {code : Emitter} {language : Language}
  {harvester : Harvester} {output directory : Path} {name source : String} {s t : Session}

/-- A failure that building what is staged ends in has its stage. -/
theorem Built.mapError_eq {start stop : Host} {ds : List Dispatch} {result : Except Failure Path}
    (h : Built g language harvester output name source start ds result stop) :
    result.mapError (Failure.inStage (some name) "stage") = result := by
  cases h with
  | compileFailed => rfl
  | packageFailed => rfl
  | @harvestFailed d e failure host hd hok he hok' hfail =>
    show Except.error ((failure.inStage (some name) "harvest").inStage (some name) "stage") = _
    rw [failure.inStage_inStage]
  | harvested => rfl

/-! ## Inside a staging directory -/

/-- What happens to a name in its staging directory: the path of the directory is resolved, the code is
saved there, the manifest is written, and what is staged is built, up to the first that fails. -/
inductive Staged (g : Getter) (code : Emitter) (language : Language) (harvester : Harvester)
    (output : Path) (name source : String) (directory : Path) :
    Host → List Dispatch → Except Failure Path → Host → Prop
  | unresolved {start failure} (h : (Host.resolve directory).run start = (.error failure, start)) :
      Staged g code language harvester output name source directory start []
        (.error (failure.inStage (some name) "stage")) start
  | unsaved {start root failure files}
      (hresolve : (Host.resolve directory).run start = (.ok root, start))
      (h : (code.saveFiles root).run start.files = (.error failure, files)) :
      Staged g code language harvester output name source directory start []
        (.error ((Host.failureOf failure).inStage (some name) "stage")) { start with files }
  | unmanifested {start root paths saved failure files}
      (hresolve : (Host.resolve directory).run start = (.ok root, start))
      (hsave : (code.saveFiles root).run start.files = (.ok paths, saved))
      (h : (writeText (directory.child Manifest.fileName) ((g.manifest source).text ++ "\n")).run
        saved = (.error failure, files)) :
      Staged g code language harvester output name source directory start []
        (.error ((Host.failureOf failure).inStage (some name) "compile")) { start with files }
  | built {start root paths saved files ds result stop}
      (hresolve : (Host.resolve directory).run start = (.ok root, start))
      (hsave : (code.saveFiles root).run start.files = (.ok paths, saved))
      (hmanifest : (writeText (directory.child Manifest.fileName)
        ((g.manifest source).text ++ "\n")).run saved = (.ok (), files))
      (hwhere : ∀ d ∈ ds, d.context.workingDirectory = directory.text)
      (h : Built g language harvester output name source { start with files } ds result stop) :
      Staged g code language harvester output name source directory start ds result stop

/-- Whatever happens in a staging directory is one of the ways it can go, once failures are in their
stage. -/
theorem run_staged (g : Getter) (hclosed : code.current = none) (hp : directory.Written)
    (name source : String) (language : Language) (harvester : Harvester) (output : Path)
    (s : Session) :
    ∃ ds result t,
      (do
        let _ ← save code directory
        g.buildIn name source language harvester output directory : Run Path).run s = (result, t) ∧
      t.dispatches = s.dispatches ++ ds ∧
      Staged g code language harvester output name source directory s.host ds
        (result.mapError (Failure.inStage (some name) "stage")) t.host := by
  have hnone : ∀ u : Session, u.dispatches = u.dispatches ++ [] :=
    fun u => (List.append_nil u.dispatches).symm
  have hsave : save code directory = Run.onHost (do
      let root ← Host.resolve directory
      Host.withFiles (code.saveFiles root)) := by
    unfold save
    rw [hclosed]
  rw [hsave, run_bind, run_onHost, run_bind]
  rcases hresolve : (Host.resolve directory).run s.host with ⟨failure | root, host⟩
  · obtain ⟨rfl, -⟩ := run_resolve_error hresolve
    exact ⟨[], _, _, rfl, hnone s, .unresolved hresolve⟩
  · obtain ⟨rfl, -⟩ := run_resolve_ok_iff.1 hresolve
    dsimp only
    rw [run_withFiles]
    rcases hfiles : (code.saveFiles root).run s.host.files with ⟨failure | paths, saved⟩
    · exact ⟨[], _, _, rfl, hnone s, .unsaved hresolve hfiles⟩
    · show ∃ ds result t, (g.buildIn name source language harvester output directory).run
        { s with host := { s.host with files := saved } } = (result, t) ∧ _
      rcases hmanifest : (writeText (directory.child Manifest.fileName)
        ((g.manifest source).text ++ "\n")).run saved with ⟨failure | ⟨⟩, files⟩
      · -- the manifest cannot be written, and no tool is asked
        have hschema : (compileSchema directory (g.manifest source)).run
            { s with host := { s.host with files := saved } } =
              (.error (Host.failureOf failure), { s with host := { s.host with files } }) :=
          run_compileSchema_error g source hmanifest
        refine ⟨[], .error ((Host.failureOf failure).inStage (some name) "compile"),
          { s with host := { s.host with files } }, ?_, hnone _, ?_⟩
        · unfold buildIn
          exact run_bind_of_error (run_inStage_of_error hschema (some name) "compile") _
        · show Staged _ _ _ _ _ _ _ _ _ _ (.error (((Host.failureOf failure).inStage (some name)
            "compile").inStage (some name) "stage")) _
          rw [Failure.inStage_inStage]
          exact .unmanifested hresolve hfiles hmanifest
      · obtain ⟨ds, result, t, hrun, hdispatches, hwhere, hbuilt⟩ :=
          run_buildIn (s := { s with host := { s.host with files := saved } }) g name source language
            harvester output hp hmanifest
        refine ⟨ds, result, t, hrun, hdispatches, ?_⟩
        rw [hbuilt.mapError_eq]
        exact .built hresolve hfiles hmanifest hwhere hbuilt

/-! ## One name -/

/-- A turn of a name: a staging directory is made and removed again around the work in it, if it can be
made. -/
inductive Turn (g : Getter) (code : Emitter) (language : Language) (harvester : Harvester)
    (output : Path) (name source : String) :
    Host → List Dispatch → Except Failure Path → Host → Prop
  | unstaged {start failure stop}
      (h : (Staging.acquire "get" g.stagingRoot).run start = (.error failure, stop)) :
      Turn g code language harvester output name source start []
        (.error (failure.inStage (some name) "stage")) stop
  | staged {start directory made ds result stop}
      (hacquire : (Staging.acquire "get" g.stagingRoot).run start = (.ok directory, made))
      (h : Staged g code language harvester output name source directory made ds result stop) :
      Turn g code language harvester output name source start ds result
        (Staging.released directory stop)

/-- Work on a name that resolves is noted, and then the name has its turn. -/
theorem run_buildOne_turn (g : Getter) (request : Request) (harvester : Harvester) (output : Path)
    (hclosed : code.current = none) {c : Constraint}
    (hc : Constraint.resolve name = .ok c) (s : Session) :
    ∃ noted ds result t, Noted s.host noted ∧
      (g.buildOne code request harvester output name).run s = (result, t) ∧
      t.dispatches = s.dispatches ++ ds ∧
      Turn g code request.language harvester output name (c.source request.kind) noted ds result
        t.host := by
  obtain ⟨noted, hnote, hnoted⟩ :=
    exists_noted (.building request.kind (c.source request.kind) request.language.name) s
  unfold buildOne
  rw [run_bind_of_ok (Constraint.run_resolveStaged_of_ok hc s)]
  dsimp only
  rw [run_bind_of_ok hnote, run_inStage]
  rcases hacquire : (Staging.acquire "get" g.stagingRoot).run noted with ⟨failure | directory, made⟩
  · have hwithin : ∀ work : Path → Run Path,
        (Staging.within "get" g.stagingRoot work).run { s with host := noted } =
          (.error failure, { s with host := made }) := by
      intro work
      unfold Staging.within
      refine run_bind_of_error ?_ _
      rw [run_onHost, hacquire]
    rw [hwithin]
    exact ⟨noted, [], _, _, hnoted, rfl, (List.append_nil _).symm, .unstaged hacquire⟩
  · obtain ⟨ds, result, t, hwork, hdispatches, hstaged⟩ := run_staged g hclosed
      (Staging.written_of_acquire hacquire) name (c.source request.kind) request.language harvester
      output { s with host := made }
    rw [Staging.run_within_of_acquire (s := { s with host := noted }) hacquire hwork]
    exact ⟨noted, ds, _, _, hnoted, rfl, hdispatches, .staged hacquire hstaged⟩

/-! ## One name after another -/

/-- The turns of names, one after another up to the first that fails. -/
inductive Turns (g : Getter) (code : Emitter) (request : Request) (harvester : Harvester)
    (output : Path) :
    List String → Host → List Dispatch → Except Failure (List Path) → Host → Prop
  | done {host} : Turns g code request harvester output [] host [] (.ok []) host
  | stopped {name rest c start noted ds failure stop} (hc : Constraint.resolve name = .ok c)
      (hnoted : Noted start noted)
      (h : Turn g code request.language harvester output name (c.source request.kind) noted ds
        (.error failure) stop) :
      Turns g code request harvester output (name :: rest) start ds (.error failure) stop
  | passed {name rest c start noted middle ds es path result stop}
      (hc : Constraint.resolve name = .ok c) (hnoted : Noted start noted)
      (h : Turn g code request.language harvester output name (c.source request.kind) noted ds
        (.ok path) middle)
      (hrest : Turns g code request harvester output rest middle es result stop) :
      Turns g code request harvester output (name :: rest) start (ds ++ es)
        (result.map (path :: ·)) stop

/-- Names that resolve have their turns, one after another. -/
theorem run_mapM_buildOne_turns (g : Getter) (request : Request) (harvester : Harvester) (output : Path)
    (hclosed : code.current = none) {names : List String}
    {cs : List Constraint} (hcs : names.map Constraint.resolve = cs.map .ok) (s : Session) :
    ∃ ds result t, (names.mapM (g.buildOne code request harvester output)).run s = (result, t) ∧
      t.dispatches = s.dispatches ++ ds ∧
      Turns g code request harvester output names s.host ds result t.host := by
  -- on the names; the turn of each starts where the one before it ended
  induction names generalizing cs s with
  | nil => exact ⟨[], _, _, rfl, (List.append_nil _).symm, .done⟩
  | cons name rest ih =>
    cases cs with
    | nil => simp at hcs
    | cons c cs =>
      simp only [List.map_cons, List.cons.injEq] at hcs
      obtain ⟨hc, hrest⟩ := hcs
      obtain ⟨noted, ds, result, u, hnoted, hone, hu, hturn⟩ :=
        run_buildOne_turn g request harvester output hclosed hc s
      rw [List.mapM_cons, run_bind, hone]
      cases result with
      | error failure => exact ⟨ds, _, u, rfl, hu, .stopped hc hnoted hturn⟩
      | ok path =>
        obtain ⟨es, result, t, hothers, ht, hturns⟩ := ih hrest u
        dsimp only
        rw [run_bind, hothers]
        have hall : t.dispatches = s.dispatches ++ (ds ++ es) := by
          rw [ht, hu, List.append_assoc]
        have hend := Turns.passed hc hnoted hturn hturns
        cases result with
        | error failure => exact ⟨ds ++ es, _, t, rfl, hall, hend⟩
        | ok paths => exact ⟨ds ++ es, _, t, rfl, hall, hend⟩

/-- Names whose turns all came to their ends were put at the places of their sources. -/
theorem Turns.paths_eq {names : List String} {start stop : Host} {ds : List Dispatch}
    {paths : List Path} {cs : List Constraint}
    (h : Turns g code request .package output names start ds (.ok paths) stop)
    (hcs : names.map Constraint.resolve = cs.map .ok) :
    paths = cs.map fun c => output.child (importName (c.source request.kind)) := by
  generalize hresult : (Except.ok paths : Except Failure (List Path)) = result at h
  induction h generalizing cs paths with
  | done =>
    cases hresult
    cases cs with
    | nil => rfl
    | cons c cs => simp at hcs
  | stopped => cases hresult
  | @passed name rest c start noted middle ds es path result stop hc hnoted hturn hrest ih =>
    cases cs with
    | nil => simp at hcs
    | cons d cs =>
      simp only [List.map_cons, List.cons.injEq] at hcs
      obtain rfl : c = d := Except.ok.inj (hc.symm.trans hcs.1)
      cases result with
      | error failure => cases hresult
      | ok others =>
        cases hresult
        have hpath : path = output.child (importName (c.source request.kind)) := by
          cases hturn with
          | staged hacquire hstaged =>
            cases hstaged with
            | built hresolve hsave hmanifest hwhere hbuilt => exact hbuilt.path_eq
        rw [List.map_cons, ← hpath, ← ih hcs.2 rfl]

end Getter

end ProviderBindings
