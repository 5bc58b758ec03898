import Mathlib.Data.List.Nodup
import ProviderBindings.Proofs.Harvesting
import ProviderBindings.Proofs.Requests
import ProviderBindings.Proofs.Staging

/-!
# How a name is built

A tool that is asked to act never breaks out, whatever it does: every dispatch leaves a receipt and is kept
with the session (`run_execute`). So a name is compiled, packaged and harvested as far as the receipts
are good (`Built`, `run_buildIn`), and building it is that between the making and the removal of a staging
directory (`run_buildOne_ok`).
-/

namespace ProviderBindings

open FileSystem

/-! ## Dispatches -/

/-- Whether a computation ends well wherever it starts, and asks no tool on the way. -/
def Quiet {α : Type} (work : Run α) : Prop :=
  ∀ s, ∃ a t, work.run s = (.ok a, t) ∧ t.dispatches = s.dispatches

/-- A sequence of quiet computations is quiet. -/
theorem Quiet.bind {α β : Type} {x : Run α} {f : α → Run β} (h : Quiet x) (hf : ∀ a, Quiet (f a)) :
    Quiet (x >>= f) := by
  intro s
  obtain ⟨a, u, hx, hu⟩ := h s
  obtain ⟨b, t, hb, ht⟩ := hf a u
  exact ⟨b, t, by rw [run_bind_of_ok hx, hb], ht.trans hu⟩

/-- To give a value is quiet. -/
theorem quiet_pure {α : Type} (a : α) : Quiet (pure a) :=
  fun s => ⟨a, s, rfl, rfl⟩

/-- To look at the session is quiet. -/
theorem quiet_get : Quiet (get : Run Session) :=
  fun s => ⟨s, s, rfl, rfl⟩

/-- To change the session is quiet when its dispatches stay. -/
theorem quiet_modify {f : Session → Session} (h : ∀ s, (f s).dispatches = s.dispatches) :
    Quiet (modify f : Run PUnit) :=
  fun s => ⟨⟨⟩, f s, rfl, h s⟩

/-- A notice is quiet. -/
theorem quiet_note (n : Notice) : Quiet (Run.note n) := by
  intro s
  obtain ⟨host, hrun, -⟩ := exists_noted n s
  exact ⟨(), _, hrun, rfl⟩

/-- Host work is quiet when it is only attempted. -/
theorem quiet_attempt {α : Type} (work : HostAction α) : Quiet (Run.attempt (Run.onHost work)) :=
  fun s => ⟨(work.run s.host).1, { s with host := (work.run s.host).2 }, rfl, rfl⟩

/-- To ask a tool that does not object is quiet, whatever the tool does. -/
theorem quiet_runTool (tool : Tool) (context : Context) : Quiet (Run.runTool tool context) := by
  have hlast : ∀ receipt : Receipt, Quiet (do
      if !receipt.succeeded then
        Run.note (.toolFailed context.action.adapter context.action.id receipt.error)
      pure receipt) := by
    intro receipt
    dsimp only
    split
    · exact (quiet_note _).bind fun _ => quiet_pure _
    · exact quiet_pure _
  unfold Run.runTool
  refine (quiet_note _).bind fun _ => Quiet.bind (quiet_modify ?_) fun _ => ?_
  · exact fun _ => rfl
  refine (quiet_attempt _).bind fun outcome => ?_
  cases outcome with
  | ok receipt => exact (quiet_pure _).bind hlast
  | error failure => exact (quiet_note _).bind fun _ => (quiet_pure _).bind hlast

/-- The answer to an action is quiet, whichever tool there is and whatever it does. -/
theorem quiet_answer (context : Context) : Quiet (Run.answer context) := by
  unfold Run.answer
  refine quiet_get.bind fun session => ?_
  cases session.registry.find? context.action.adapter with
  | none => exact quiet_pure _
  | some tool =>
    dsimp only
    split
    · exact quiet_pure _
    · exact quiet_pure _
    · exact quiet_runTool tool context

/-- Every action leaves a receipt, and one dispatch that tells how the host was before and after it. -/
theorem run_execute (context : Context) (s : Session) :
    ∃ d t, (Run.execute context).run s = (.ok d.receipt, t) ∧
      t.dispatches = s.dispatches ++ [d] ∧ d.context = context ∧ d.before = s.host ∧
      d.after = t.host := by
  obtain ⟨receipt, u, hanswer, hu⟩ := quiet_answer context s
  refine ⟨⟨context, s.host, u.host, receipt⟩,
    { u with dispatches := u.dispatches ++ [⟨context, s.host, u.host, receipt⟩] }, ?_, ?_, rfl, rfl,
    rfl⟩
  · unfold Run.execute
    rw [run_bind, run_get]
    dsimp only
    rw [run_bind_of_ok hanswer, run_bind, run_modify]
    rfl
  · rw [hu]

namespace Getter

variable {g : Getter} {request : Request} {s t : Session} {code : Emitter}

/-- An action succeeds as far as its receipt does. -/
theorem run_runAction (action : Action) (directory : Path) (s : Session) :
    ∃ d t, (runAction action directory).run s =
        (if d.receipt.succeeded then .ok d.receipt
          else .error (.generation { cause := .toolFailed d.receipt }), t) ∧
      t.dispatches = s.dispatches ++ [d] ∧
      d.context = { action, workingDirectory := directory.text } ∧ d.before = s.host ∧
      d.after = t.host := by
  obtain ⟨d, t, hrun, hdispatches, hcontext, hbefore, hafter⟩ :=
    run_execute { action, workingDirectory := directory.text } s
  refine ⟨d, t, ?_, hdispatches, hcontext, hbefore, hafter⟩
  unfold runAction
  rw [run_bind_of_ok hrun]
  by_cases hok : d.receipt.succeeded <;> simp [hok]

/-- Whether a dispatch is that of the compiler for a source. -/
def Compiles (g : Getter) (source : String) (d : Dispatch) : Prop :=
  d.context.action = compileAction (g.manifest source)

/-- Whether a dispatch is that of the packager for a source, right after a compiler's and in the same
directory. -/
structure Packages (source : String) (language : Language) (d e : Dispatch) : Prop where
  /-- It is asked to package the source for the language. -/
  action : e.context.action = packageAction source language
  /-- It works where the compiler did. -/
  directory : e.context.workingDirectory = d.context.workingDirectory
  /-- It finds what the compiler left. -/
  before : e.before = d.after

/-- The harvest after a dispatch of the packager. -/
def harvestAfter (harvester : Harvester) (output : Path) (source : String) (e : Dispatch) :
    Except Failure Path × Host :=
  (harvester.harvest (Path.ofString e.context.workingDirectory) output (importName source)).run e.after

/-- How a name is built from what is staged on a host: the compiler is dispatched, then the packager, and
then the package is harvested, up to the first that fails. The dispatches made are told, what comes of it,
and the host it is left on. -/
inductive Built (g : Getter) (language : Language) (harvester : Harvester) (output : Path)
    (name source : String) : Host → List Dispatch → Except Failure Path → Host → Prop
  | compileFailed {d} (hd : g.Compiles source d) (hfail : d.receipt.succeeded = false) :
      Built g language harvester output name source d.before [d]
        (.error (.generation
          { cause := .toolFailed d.receipt, target := name, stage := "compile" })) d.after
  | packageFailed {d e} (hd : g.Compiles source d) (hok : d.receipt.succeeded = true)
      (he : Packages source language d e) (hfail : e.receipt.succeeded = false) :
      Built g language harvester output name source d.before [d, e]
        (.error (.generation
          { cause := .toolFailed e.receipt, target := name, stage := "package" })) e.after
  | harvestFailed {d e failure host} (hd : g.Compiles source d)
      (hok : d.receipt.succeeded = true) (he : Packages source language d e)
      (hok' : e.receipt.succeeded = true)
      (hfail : harvestAfter harvester output source e = (.error failure, host)) :
      Built g language harvester output name source d.before [d, e]
        (.error (failure.inStage (some name) "harvest")) host
  | harvested {d e path host} (hd : g.Compiles source d) (hok : d.receipt.succeeded = true)
      (he : Packages source language d e) (hok' : e.receipt.succeeded = true)
      (hharvest : harvestAfter harvester output source e = (.ok path, host)) :
      Built g language harvester output name source d.before [d, e] (.ok path) host

/-- The compiler is asked once the manifest is written, and finds it written. -/
theorem run_compileSchema (g : Getter) (source : String) {directory : Path} {fs : FileSystem}
    (h : (writeText (directory.child Manifest.fileName) ((g.manifest source).text ++ "\n")).run
      s.host.files = (.ok (), fs)) :
    ∃ d u, (compileSchema directory (g.manifest source)).run s =
        (if d.receipt.succeeded then .ok d.receipt
          else .error (.generation { cause := .toolFailed d.receipt }), u) ∧
      u.dispatches = s.dispatches ++ [d] ∧ d.context.workingDirectory = directory.text ∧
      g.Compiles source d ∧ d.before = { s.host with files := fs } ∧ d.after = u.host := by
  have hmanifest : (Run.onHost (Host.withFiles (writeText (directory.child Manifest.fileName)
      ((g.manifest source).text ++ "\n")))).run s =
        (.ok (), { s with host := { s.host with files := fs } }) :=
    run_onHost_ok_iff.2 ⟨_, run_withFiles_ok_iff.2 ⟨fs, h, rfl⟩, rfl⟩
  obtain ⟨d, u, hcompile, hu, hd, hbefore, hafter⟩ := run_runAction (compileAction (g.manifest source))
    directory { s with host := { s.host with files := fs } }
  refine ⟨d, u, ?_, hu, by rw [hd], ?_, hbefore, hafter⟩
  · unfold compileSchema
    rw [run_bind_of_ok hmanifest, hcompile]
  · unfold Compiles
    rw [hd]

/-- No tool is asked when the manifest cannot be written. -/
theorem run_compileSchema_error (g : Getter) (source : String) {directory : Path} {failure : FileFailure}
    {fs : FileSystem}
    (h : (writeText (directory.child Manifest.fileName) ((g.manifest source).text ++ "\n")).run
      s.host.files = (.error failure, fs)) :
    (compileSchema directory (g.manifest source)).run s =
      (.error (Host.failureOf failure), { s with host := { s.host with files := fs } }) := by
  have hmanifest : (Host.withFiles (writeText (directory.child Manifest.fileName)
      ((g.manifest source).text ++ "\n"))).run s.host =
        (.error (Host.failureOf failure), { s.host with files := fs }) := by
    rw [run_withFiles, h]
    rfl
  unfold compileSchema
  rw [run_bind, run_onHost, hmanifest]

/-- What comes of the harvest after two tools that succeeded. -/
theorem built_of_harvestAfter {language : Language} {harvester : Harvester} {output : Path} {name source : String}
    {d e : Dispatch} {result : Except Failure Path} {host : Host} (hd : g.Compiles source d)
    (hok : d.receipt.succeeded = true) (he : Packages source language d e) (hok' : e.receipt.succeeded = true)
    (h : harvestAfter harvester output source e = (result, host)) :
    Built g language harvester output name source d.before [d, e]
      (result.mapError (Failure.inStage (some name) "harvest")) host := by
  cases result with
  | error failure => exact .harvestFailed hd hok he hok' h
  | ok path => exact .harvested hd hok he hok' h

/-- What is staged in a directory is built once the manifest can be written there. -/
theorem run_buildIn (g : Getter) (name source : String) (language : Language)
    (harvester : Harvester) (output : Path) {directory : Path} (hp : directory.Written)
    {fs : FileSystem}
    (h : (writeText (directory.child Manifest.fileName) ((g.manifest source).text ++ "\n")).run
      s.host.files = (.ok (), fs)) :
    ∃ ds result t, (g.buildIn name source language harvester output directory).run s = (result, t) ∧
      t.dispatches = s.dispatches ++ ds ∧
      (∀ d ∈ ds, d.context.workingDirectory = directory.text) ∧
      Built g language harvester output name source { s.host with files := fs } ds result t.host := by
  obtain ⟨d, u, hschema, hu, hd, hcompiles, hstart, hafter⟩ := run_compileSchema g source h
  rw [← hstart]
  unfold buildIn
  -- the packager is asked only when the compiler succeeded, and the harvest follows only when both did
  by_cases hok : d.receipt.succeeded = true
  · rw [if_pos hok] at hschema
    rw [run_bind_of_ok (run_inStage_ok_iff.2 hschema)]
    obtain ⟨e, v, hpackage, hv, he, hbefore, hlast⟩ :=
      run_runAction (packageAction source language) directory u
    have hpackages : Packages source language d e := ⟨by rw [he], by rw [he, hd], by rw [hbefore, hafter]⟩
    have hall : v.dispatches = s.dispatches ++ [d, e] := by
      rw [hv, hu, List.append_assoc]
      rfl
    have hwhere : ∀ f ∈ [d, e], f.context.workingDirectory = directory.text := by
      simp [hd, he]
    by_cases hok' : e.receipt.succeeded = true
    · rw [if_pos hok'] at hpackage
      rw [run_bind_of_ok (run_inStage_ok_iff.2 hpackage)]
      have hharvest : harvestAfter harvester output source e =
          (harvester.harvest directory output (importName source)).run v.host := by
        unfold harvestAfter
        rw [hlast, he, Path.ofString_text hp]
      rw [run_inStage, run_onHost, ← hharvest]
      exact ⟨[d, e], _, _, rfl, hall, hwhere, built_of_harvestAfter hcompiles hok hpackages hok' rfl⟩
    · have hbad : e.receipt.succeeded = false := by simpa using hok'
      rw [if_neg hok'] at hpackage
      rw [run_bind_of_error (run_inStage_of_error hpackage (some name) "package")]
      refine ⟨[d, e], _, v, rfl, hall, hwhere, ?_⟩
      rw [← hlast]
      exact .packageFailed hcompiles hok hpackages hbad
  · have hbad : d.receipt.succeeded = false := by simpa using hok
    rw [if_neg hok] at hschema
    rw [run_bind_of_error (run_inStage_of_error hschema (some name) "compile")]
    refine ⟨[d], _, u, rfl, hu, by simp [hd], ?_⟩
    rw [← hafter]
    exact .compileFailed hcompiles hbad

/-- A name that was built from what is staged had its manifest written, and went through every step. -/
theorem run_buildIn_ok {name source : String} {language : Language} {harvester : Harvester}
    {output directory path : Path} (hp : directory.Written)
    (h : (g.buildIn name source language harvester output directory).run s = (.ok path, t)) :
    ∃ fs ds, (writeText (directory.child Manifest.fileName) ((g.manifest source).text ++ "\n")).run
        s.host.files = (.ok (), fs) ∧
      t.dispatches = s.dispatches ++ ds ∧
      (∀ d ∈ ds, d.context.workingDirectory = directory.text) ∧
      Built g language harvester output name source { s.host with files := fs } ds (.ok path) t.host := by
  obtain ⟨receipt, u, hcompile, -⟩ := exists_of_run_bind_ok h
  obtain ⟨⟨⟩, v, hmanifest, -⟩ := exists_of_run_bind_ok (run_inStage_ok_iff.1 hcompile)
  obtain ⟨host, hhost, rfl⟩ := run_onHost_ok_iff.1 hmanifest
  obtain ⟨fs, hwrite, rfl⟩ := run_withFiles_ok_iff.1 hhost
  obtain ⟨ds, result, w, hrun, hrest⟩ := run_buildIn g name source language harvester output hp hwrite
  rw [hrun] at h
  cases h
  exact ⟨fs, ds, hwrite, hrest⟩

/-- A name that was built was built in a staging directory that the code was saved to. -/
theorem run_buildOne_ok {name : String} {c : Constraint} (hc : Constraint.resolve name = .ok c)
    {harvester : Harvester} {output path : Path}
    (h : (g.buildOne code request harvester output name).run s = (.ok path, t)) :
    ∃ noted directory host saved fs u,
      (Run.note (.building request.kind (c.source request.kind) request.language.name)).run s =
        (.ok (), { s with host := noted }) ∧
      (Staging.acquire "get" g.stagingRoot).run noted = (.ok directory, host) ∧
      (save code directory).run { s with host } =
        (.ok saved, { s with host := { host with files := fs } }) ∧
      (g.buildIn name (c.source request.kind) request.language harvester output directory).run
        { s with host := { host with files := fs } } = (.ok path, u) ∧
      t = { u with host := { u.host with files := ((removeTree directory).run u.host.files).2 } } := by
  unfold buildOne at h
  rw [run_bind_of_ok (Constraint.run_resolveStaged_of_ok hc s)] at h
  dsimp only at h
  obtain ⟨noted, hnote, -⟩ := exists_noted
    (.building request.kind (c.source request.kind) request.language.name) s
  rw [run_bind_of_ok hnote] at h
  obtain ⟨directory, host, u, hacquire, hwork, ht⟩ := Staging.run_within_ok (run_inStage_ok_iff.1 h)
  obtain ⟨saved, v, hsave, hbuild⟩ := exists_of_run_bind_ok hwork
  obtain ⟨root, fs, hroot, hfiles, rfl⟩ := run_save_ok hsave
  exact ⟨noted, directory, host, saved, fs, u, hnote, hacquire, hsave, hbuild, ht⟩

/-- What was built for Python is at the place of its source below the output directory. -/
theorem Built.path_eq {language : Language} {output path : Path} {name source : String}
    {start stop : Host} {ds : List Dispatch}
    (h : Built g language .package output name source start ds (.ok path) stop) :
    path = output.child (importName source) := by
  cases h with
  | harvested hd hok he hok' hharvest => exact Harvester.run_harvest_path hharvest

/-- The names that were built one after another were put at the places of their sources. -/
theorem run_mapM_buildOne_paths {names : List String} {cs : List Constraint}
    (hcs : names.map Constraint.resolve = cs.map .ok) {output : Path} {paths : List Path}
    (h : (names.mapM (g.buildOne code request .package output)).run s = (.ok paths, t)) :
    paths = cs.map fun c => output.child (importName (c.source request.kind)) := by
  induction names generalizing cs paths s with
  | nil =>
    cases cs with
    | nil => cases h; rfl
    | cons c cs => simp at hcs
  | cons name rest ih =>
    cases cs with
    | nil => simp at hcs
    | cons c cs =>
      simp only [List.map_cons, List.cons.injEq] at hcs
      obtain ⟨path, u, paths', hone, hrest, rfl⟩ := run_mapM_cons_ok h
      obtain ⟨noted, directory, host, saved, fs, v, -, hacquire, -, hbuild, -⟩ :=
        run_buildOne_ok hcs.1 hone
      obtain ⟨manifested, ds, -, -, -, hbuilt⟩ :=
        run_buildIn_ok (Staging.written_of_acquire hacquire) hbuild
      rw [hbuilt.path_eq, ih hcs.2 hrest]
      rfl

/-- A request for Python that succeeds put its names at the places of their sources below the resolved output
directory. No two of these are the same. -/
theorem run_get_python_ok (hl : request.language = .python) (hne : request.names ≠ [])
    {paths : List Path} (h : (g.get request).run s = (.ok paths, t)) :
    ∃ cs : List Constraint, request.names.map Constraint.resolve = cs.map .ok ∧
      paths = cs.map (fun c => (s.host.files.resolve request.outputDirectory).child
        (importName (c.source request.kind))) ∧
      paths.Nodup := by
  obtain ⟨output, made, harvester, code, hresolve, -, hharvester, hcheck, -, hlast⟩ := run_get_ok hne h
  rw [hl] at hharvester hcheck
  cases hharvester
  cases builds_of_run (by rw [hl]; rfl) hlast with | finished hbuild => ?_
  obtain ⟨-, -, -, rfl, -⟩ := run_resolve_ok_iff.1 hresolve
  obtain ⟨cs, hcs, hkeys⟩ := checkCollisions_ok_iff.1 hcheck
  have hpaths := run_mapM_buildOne_paths hcs hbuild
  refine ⟨cs, hcs, hpaths, ?_⟩
  rw [hpaths]
  refine (List.nodup_map_iff_inj_on ?_).2 ?_
  · exact hkeys.of_map
  · intro c hc d hd he
    refine List.inj_on_of_nodup_map hkeys hc hd ?_
    exact ((Constraint.segmented_of_mem hcs hc request.kind).child_importName_inj
      (Constraint.segmented_of_mem hcs hd request.kind)).1 he

end Getter

end ProviderBindings
