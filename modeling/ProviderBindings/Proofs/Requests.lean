import ProviderBindings.Proofs.FileSystem.Resolving
import ProviderBindings.Proofs.Saving

/-!
# How requests are carried out

A request that succeeds went through its stages one after another, and here it is taken apart into them:
`run_get_ok` for what all languages have in common, up to the emission, `Builds` for names that are built one
after another, and `run_get_typescript_ok` for code that is saved as it is. Saving goes to the place that the
output directory leads to, and the last file saved is the version index.
-/

namespace ProviderBindings

open FileSystem

/-! ## Where a path resolves to -/

/-- In a sound tree a path resolves to the path from the root to a proper place. -/
theorem exists_proper_of_run_resolve {start host : Host} {p path : Path} (hs : start.files.Sound) (hp : p.Written)
    (h : (Host.resolve p).run start = (.ok path, host)) : ∃ place, path = .fromRoot place ∧ Proper place := by
  obtain ⟨-, -, hstart, hpath, -⟩ := run_resolve_ok_iff.1 h
  obtain ⟨place, hplace, hproper⟩ := hs.proper_resolve hp hstart
  exact ⟨place, hpath.trans hplace, hproper⟩

/-! ## The version index -/

/-- Whether the file at a path is the version index of some constraints. Only when it is the log file as well
may something follow. -/
def HoldsIndex (fs : FileSystem) (index : Path) (cs : List Constraint) : Prop :=
  ∃ line x,
    fs.status .follow index =
      .ok (some (.file (.text (VersionIndex.text (versionTable cs) ++ line)) x)) ∧
    ((∀ place, fs.locate .follow index = .ok place → fs.held ≠ some place) → line = "")

/-- A version index is there still after the log file was added to. -/
theorem holdsIndex_writeHeld {fs : FileSystem} (hs : fs.Sound) {index : Path} {cs : List Constraint}
    {x : Bool} (h : fs.status .follow index =
      .ok (some (.file (.text (VersionIndex.text (versionTable cs))) x))) (line : String) :
    HoldsIndex (fs.writeHeld line) index cs := by
  obtain ⟨hfault, place, hplace, hfile⟩ := status_eq_some_iff.1 h
  obtain ⟨hworking, hheld⟩ := writeHeld_frame fs line
  have hthere : (fs.writeHeld line).locate .follow index = .ok place := by
    refine locate_carried hplace (hs.carries_writeHeld line) (startOf_eq hworking _) fun hn => ?_
    rw [hfile] at hn
    cases hn
  by_cases hlog : fs.held = some place
  · refine ⟨line, x, status_eq_some_iff.2 ⟨hfault, place, hthere, ?_⟩, fun hno => ?_⟩
    · rw [get?_writeHeld hs, hfile]
      simp [hlog, Content.append]
    · exact absurd (hheld.trans hlog) (hno place hthere)
  · refine ⟨"", x, status_eq_some_iff.2 ⟨hfault, place, hthere, ?_⟩, fun _ => rfl⟩
    rw [get?_writeHeld hs, hfile]
    simp [hlog]

/-! ## Code that can be staged -/

/-- Whether an emitter is closed and its files are made of segments, none of them at the place of the
manifest or below it. -/
structure Emitter.Stageable (code : Emitter) : Prop where
  /-- No file is open. -/
  closed : code.current = none
  /-- The paths are made of segments. -/
  segmented : ∀ file ∈ code.files, Segmented file.1
  /-- None of them is at the place of the manifest or below it. -/
  apart : ∀ file ∈ code.files, ¬[Manifest.fileName] <+: Text.split '/' file.1

/-- The path of the file for a source starts with the directory of the layout. -/
theorem split_filePath (kind : TargetKind) (source : String) :
    ∃ rest, Text.split '/' ((Layout.ofKind kind).filePath source) = (Layout.ofKind kind).root :: rest := by
  have hpath : (Layout.ofKind kind).filePath source =
      (Layout.ofKind kind).root ++ "/" ++ (source ++ "/index.ts") := by
    unfold Layout.filePath Layout.typesPath
    simp only [String.append_assoc]
  have hroot : Text.split '/' (Layout.ofKind kind).root = [(Layout.ofKind kind).root] :=
    Text.split_of_not_mem (by cases kind <;> decide)
  rw [hpath, Text.split_append_slash, hroot]
  exact ⟨_, rfl⟩

/-! ## Taking a request apart -/

namespace Getter

variable {g : Getter} {request : Request} {harvester : Harvester} {code : Emitter} {s t : Session}

/-- An emission leaves the session as it is. -/
theorem run_emission (g : Getter) (request : Request) (s : Session) :
    (g.emission request).run s =
      (match (g.generate g.layout request.names request.kind).run {} with
        | (.ok _, code) => .ok code
        | (.error failure, _) => .error failure, s) := by
  unfold emission
  rcases (g.generate g.layout request.names request.kind).run {} with ⟨failure | ⟨⟩, code⟩ <;> rfl

/-- The emission of the bindings for names that resolve succeeds. -/
theorem run_emission_of_resolve (hg : g.generate = emitBindings) {cs : List Constraint}
    (h : request.names.map Constraint.resolve = cs.map .ok) (s : Session) :
    ∃ code front, (g.emission request).run s = (.ok code, s) ∧ code.current = none ∧
      code.files = front ++ [(VersionIndex.fileName, VersionIndex.text (versionTable cs))] ∧
      ∀ file ∈ front, ∃ source, Segmented source ∧ file.1 = g.layout.filePath source := by
  obtain ⟨code, front, hrun, hrest⟩ := run_emitBindings g.layout request.kind h
  refine ⟨code, front, ?_, hrest⟩
  rw [run_emission, hg, hrun]

/-- Whether the code is that of the bindings, at the places for providers or for modules. -/
def IsStandard (g : Getter) : Prop :=
  g.generate = emitBindings ∧ ∃ kind, g.layout = .ofKind kind

/-- The emission of the bindings for names that resolve succeeds, and can be staged. -/
theorem IsStandard.exists_emission (hg : g.IsStandard)
    {cs : List Constraint} (h : request.names.map Constraint.resolve = cs.map .ok) :
    ∃ code : Emitter, code.Stageable ∧ ∀ s, (g.emission request).run s = (.ok code, s) := by
  obtain ⟨hgenerate, kind, hlayout⟩ := hg
  obtain ⟨code, front, hrun, hclosed, hfiles, hfront⟩ := run_emitBindings g.layout request.kind h
  refine ⟨code, ⟨hclosed, ?_, ?_⟩, fun s => ?_⟩
  · intro file hfile
    rw [hfiles] at hfile
    rcases List.mem_append.1 hfile with hfile | hfile
    · obtain ⟨source, hsource, hpath⟩ := hfront file hfile
      rw [hpath, hlayout]
      exact Layout.segmented_filePath hsource kind
    · rw [List.mem_singleton.1 hfile]
      show Segmented VersionIndex.fileName
      decide
  · intro file hfile
    rw [hfiles] at hfile
    rcases List.mem_append.1 hfile with hfile | hfile
    · obtain ⟨source, -, hpath⟩ := hfront file hfile
      obtain ⟨rest, hsplit⟩ := split_filePath kind source
      rw [hpath, hlayout, hsplit, List.cons_prefix_cons]
      rintro ⟨hname, -⟩
      revert hname
      cases kind <;> decide
    · rw [List.mem_singleton.1 hfile]
      show ¬[Manifest.fileName] <+: Text.split '/' VersionIndex.fileName
      decide
  · rw [run_emission, hgenerate, hrun]

/-- What a request does with its code: it saves it, or builds its names and finishes the output directory. -/
def produce (g : Getter) (request : Request) (harvester : Harvester) (code : Emitter) (output : Path) :
    Run (List Path) :=
  if request.language.isPrimary then do
    let saved ← inStage none "save" (save code output)
    Run.note (.saved saved.length output.text)
    pure saved
  else do
    let harvested ← request.names.mapM (g.buildOne code request harvester output)
    inStage none "harvest" (Run.onHost (harvester.finalize output))
    pure harvested

/-- A request with names that succeeds resolved its output directory and made it, passed the check for
collisions and emitted its code; then it went on with that. -/
theorem run_get_ok {paths : List Path} (hne : request.names ≠ [])
    (h : (g.get request).run s = (.ok paths, t)) :
    ∃ output fs harvester code,
      (Host.resolve request.outputDirectory).run s.host = (.ok output, s.host) ∧
      (makeDirectories output).run s.host.files = (.ok (), fs) ∧
      Harvester.ofLanguage request.language = .ok harvester ∧
      checkCollisions request.names request.language request.kind = .ok () ∧
      (∀ u, (g.emission request).run u = (.ok code, u)) ∧
      (g.produce request harvester code output).run { s with host := { s.host with files := fs } } = (.ok paths, t) := by
  unfold get at h
  obtain ⟨output, s₁, hfirst, h⟩ := exists_of_run_bind_ok h
  obtain ⟨host, hresolve, rfl⟩ := run_onHost_ok_iff.1 hfirst
  obtain ⟨rfl, -⟩ := run_resolve_ok_iff.1 hresolve
  obtain ⟨⟨⟩, s₂, hsecond, h⟩ := exists_of_run_bind_ok h
  obtain ⟨host, hfiles, rfl⟩ := run_onHost_ok_iff.1 (run_inStage_ok_iff.1 hsecond)
  obtain ⟨fs, hmake, rfl⟩ := run_withFiles_ok_iff.1 hfiles
  cases hharvester : Harvester.ofLanguage request.language with
  | error e => rw [hharvester] at h; cases h
  | ok harvester =>
    rw [hharvester] at h
    dsimp only at h
    rw [if_neg (by simpa using hne)] at h
    cases hcheck : checkCollisions request.names request.language request.kind with
    | error failure => rw [hcheck] at h; cases h
    | ok _ =>
      rw [hcheck] at h
      obtain ⟨⟨⟩, s₃, hpass, h⟩ := exists_of_run_bind_ok h
      cases hpass
      obtain ⟨code, s₄, hcode, h⟩ := exists_of_run_bind_ok h
      have hemission := run_inStage_ok_iff.1 hcode
      -- the emission looks at nothing in the session, so that it succeeds on every other as well
      have hall : ∀ u, (g.emission request).run u = (.ok code, u) := by
        intro u
        rw [run_emission] at hemission ⊢
        rw [(outcome_eq_iff.1 hemission).1]
      rw [hall] at hemission
      cases hemission
      exact ⟨output, fs, harvester, code, hresolve, hmake, rfl, rfl, hall, h⟩

/-- When a request is done with code that is saved as it is, the code was saved, and that was noted. -/
theorem run_produce_primary_ok {output : Path} {paths : List Path} (hl : request.language.isPrimary = true)
    (h : (g.produce request harvester code output).run s = (.ok paths, t)) :
    ∃ u, (save code output).run s = (.ok paths, u) ∧
      (Run.note (.saved paths.length output.text)).run u = (.ok (), t) := by
  unfold produce at h
  rw [if_pos hl] at h
  obtain ⟨saved, u, hsave, h⟩ := exists_of_run_bind_ok h
  obtain ⟨⟨⟩, v, hnote, h⟩ := exists_of_run_bind_ok h
  cases h
  exact ⟨u, run_inStage_ok_iff.1 hsave, hnote⟩

/-- What building the names of a request comes to, and finishing the output directory when all are built. -/
inductive Builds (g : Getter) (request : Request) (harvester : Harvester) (code : Emitter) (output : Path)
    (s : Session) : Except Failure (List Path) → Session → Prop
  /-- A name cannot be built. -/
  | stopped {failure : Failure} {t : Session}
      (h : (request.names.mapM (g.buildOne code request harvester output)).run s = (.error failure, t)) :
      Builds g request harvester code output s (.error failure) t
  /-- All names are built, and the output directory cannot be finished. -/
  | unfinished {paths : List Path} {u : Session} {failure : Failure} {host : Host}
      (h : (request.names.mapM (g.buildOne code request harvester output)).run s = (.ok paths, u))
      (hfinish : (harvester.finalize output).run u.host = (.error failure, host)) :
      Builds g request harvester code output s (.error (failure.inStage none "harvest")) { u with host }
  | finished {paths : List Path} {u : Session} {host : Host}
      (h : (request.names.mapM (g.buildOne code request harvester output)).run s = (.ok paths, u))
      (hfinish : (harvester.finalize output).run u.host = (.ok (), host)) :
      Builds g request harvester code output s (.ok paths) { u with host }

/-- The names of a request that is not saved as it is are built in one of these ways. -/
theorem builds_of_run {output : Path} {result : Except Failure (List Path)}
    (hl : request.language.isPrimary = false)
    (h : (g.produce request harvester code output).run s = (result, t)) :
    Builds g request harvester code output s result t := by
  unfold produce at h
  rw [if_neg (by rw [hl]; exact Bool.false_ne_true)] at h
  rcases hall : (request.names.mapM (g.buildOne code request harvester output)).run s with ⟨failure | paths, u⟩
  · rw [run_bind_of_error hall] at h
    cases h
    exact .stopped hall
  · rw [run_bind_of_ok hall, run_bind, run_inStage, run_onHost] at h
    rcases hfinish : (harvester.finalize output).run u.host with ⟨failure | ⟨⟩, host⟩
    · rw [hfinish] at h
      cases h
      exact .unfinished hall hfinish
    · rw [hfinish] at h
      cases h
      exact .finished hall hfinish

/-- Code that is closed was saved below the place that a directory resolves to. -/
theorem run_save_ok {code : Emitter} {directory : Path} {paths : List Path}
    (h : (save code directory).run s = (.ok paths, t)) :
    ∃ root fs, (Host.resolve directory).run s.host = (.ok root, s.host) ∧
      (code.saveFiles root).run s.host.files = (.ok paths, fs) ∧
      t = { s with host := { s.host with files := fs } } := by
  unfold save at h
  cases hcurrent : code.current with
  | some current => rw [hcurrent] at h; cases h
  | none =>
    rw [hcurrent] at h
    obtain ⟨host, hwork, rfl⟩ := run_onHost_ok_iff.1 h
    obtain ⟨root, host', hresolve, hfiles⟩ := exists_of_run_bind_ok hwork
    obtain ⟨rfl, -⟩ := run_resolve_ok_iff.1 hresolve
    obtain ⟨fs, hsave, rfl⟩ := run_withFiles_ok_iff.1 hfiles
    exact ⟨root, fs, hresolve, hsave, rfl⟩

/-- Code that is closed is saved to a directory that resolves as its files are saved there. -/
theorem run_save_iff {code : Emitter} (hclosed : code.current = none) {directory root : Path}
    (hresolve : (Host.resolve directory).run s.host = (.ok root, s.host)) {paths : List Path} :
    (save code directory).run s = (.ok paths, t) ↔
      ∃ fs, (code.saveFiles root).run s.host.files = (.ok paths, fs) ∧
        t = { s with host := { s.host with files := fs } } := by
  unfold save
  rw [hclosed]
  dsimp only
  rw [run_onHost_ok_iff, run_bind_of_ok hresolve]
  constructor
  · rintro ⟨host, hfiles, rfl⟩
    obtain ⟨fs, hsave, rfl⟩ := run_withFiles_ok_iff.1 hfiles
    exact ⟨fs, hsave, rfl⟩
  · rintro ⟨fs, hsave, rfl⟩
    exact ⟨_, run_withFiles_ok_iff.2 ⟨fs, hsave, rfl⟩, rfl⟩

/-- A request for TypeScript that succeeds takes nothing away, and saves the version index of its names last,
below the place that the resolved output directory leads to. -/
theorem run_get_typescript_ok (hg : g.generate = emitBindings) (hs : s.host.files.Sound)
    (hp : request.outputDirectory.Written) (hl : request.language = .typescript)
    (hne : request.names ≠ []) {paths : List Path} (h : (g.get request).run s = (.ok paths, t)) :
    t.host.files.Sound ∧ Carries s.host.files t.host.files ∧
      ∃ (cs : List Constraint) (root : Location),
        request.names.map Constraint.resolve = cs.map .ok ∧
        paths.getLast? = some ((Path.fromRoot root).child VersionIndex.fileName) ∧
        t.host.files.locate .follow (s.host.files.resolve request.outputDirectory) = .ok root ∧
        HoldsIndex t.host.files ((Path.fromRoot root).child VersionIndex.fileName) cs := by
  obtain ⟨output, made, harvester, code, hresolve, hmake, -, hcheck, hcode, hlast⟩ := run_get_ok hne h
  obtain ⟨u, hsave, hnote⟩ := run_produce_primary_ok (by rw [hl]; rfl) hlast
  obtain ⟨cs, hcs, -⟩ := checkCollisions_ok_iff.1 hcheck
  obtain ⟨code', front, hcode', -, hfiles, -⟩ := run_emission_of_resolve hg hcs s
  rw [hcode] at hcode'
  cases hcode'
  obtain ⟨root, fs, hroot, hsaved, rfl⟩ := run_save_ok hsave
  obtain ⟨-, -, -, houtput, -⟩ := run_resolve_ok_iff.1 hresolve
  rw [← houtput]
  obtain ⟨place, rfl, hproper⟩ := exists_proper_of_run_resolve hs hp hresolve
  obtain ⟨hgrown, hdirectory⟩ := run_makeDirectories_ok hs hproper.written hmake
  obtain ⟨-, root, hlead, hdir⟩ := isDirectory_eq_true_iff.1 hdirectory
  have hmade : made.Sound := hgrown.sound hs
  -- the directory that was made is resolved again before anything is saved there
  obtain ⟨root', rfl, hproper'⟩ := exists_proper_of_run_resolve hmade hproper.written hroot
  obtain ⟨-, -, -, hroot', -⟩ := run_resolve_ok_iff.1 hroot
  rw [show made.resolve (.fromRoot place) = .fromRoot root from resolve_eq hlead] at hroot'
  cases hroot'
  obtain ⟨hfilled, hindex, x, hfound⟩ := Emitter.run_saveFiles_append_ok hmade hproper'.written hfiles hsaved
  obtain ⟨host, hrun, hnoted⟩ := exists_noted (.saved paths.length (Path.fromRoot place).text)
    { s with host := { s.host with files := fs } }
  obtain ⟨line, hline⟩ := hnoted.files
  rw [hrun] at hnote
  cases hnote
  rw [show ({ s with host } : Session).host.files = fs.writeHeld line from hline]
  have hall : Filled s.host.files fs := (hgrown.filled hs).trans hfilled
  have hcarries : Carries fs (fs.writeHeld line) := hall.sound.carries_writeHeld line
  refine ⟨hall.sound.writeHeld line, Carries.trans hall.carries hcarries, cs, root, hcs, hindex, ?_,
    holdsIndex_writeHeld hall.sound hfound line⟩
  refine locate_carried (hfilled.locate hlead hdir) hcarries (startOf_eq (writeHeld_frame fs line).1 _) fun hn => ?_
  rw [Carries.directory hfilled.carries hdir] at hn
  cases hn

end Getter

end ProviderBindings
