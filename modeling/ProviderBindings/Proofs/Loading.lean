import ProviderBindings.Proofs.Checking

/-!
# Configurations that cannot be loaded

Loading a configuration file goes through the search for it, a look at it, its decoding, the reading of its
text as YAML and the reading of its values as a project. Whatever the values under the known keys are, the
last step fails with a fault of the configuration alone (`exists_of_ofData_error`). What fails otherwise comes
from the steps before it, and `Escapes` lists the causes: the search that cannot go on, the path that is too long, the
bytes that are no text, and the scalar that is not what it looks like. A check and a run report every fault of the
configuration and pass on what escapes (`load_outcome`).
-/

namespace ProviderBindings

namespace FileSystem

variable {fs : FileSystem} {ending : Ending}

/-- A look fails only where the path is too long for the file system. -/
theorem status_eq_error_iff {p : Path} {e : SystemError} :
    fs.status ending p = .error e ↔
      PathFault.ofText? p.text = none ∧ fs.locate ending p = .error .nameTooLong ∧ e = .on .nameTooLong p := by
  unfold status
  by_cases hfault : (PathFault.ofText? p.text).isSome
  · rw [if_pos hfault]
    have hsome : PathFault.ofText? p.text ≠ none := Option.isSome_iff_ne_none.1 hfault
    simp [hsome]
  · rw [if_neg hfault]
    have hnone : PathFault.ofText? p.text = none := by simpa using hfault
    cases fs.locate ending p with
    | ok place => simp
    | error errno => cases errno <;> simp [hnone, eq_comm]

end FileSystem

/-! ## The values of a configuration -/

/-- A value that is no language fails to be read as one only as a name that none has. -/
theorem Data.exists_of_asLanguage_error {value : Data} {e : GenerationError}
    (h : value.asLanguage = .error e) : ∃ name, e = { cause := .unsupportedLanguage name } := by
  unfold Data.asLanguage at h
  split at h
  · next name =>
    unfold Language.parse at h
    cases hname : Language.ofName? name with
    | some language =>
      rw [hname] at h
      cases h
    | none =>
      rw [hname] at h
      cases h
      exact ⟨name, rfl⟩
  · split at h <;> cases h
  · cases h

/-- Fields that are no project fail to be read as one only for the name of the language, if not with a list of
issues. -/
theorem Project.exists_of_ofData_error {fields : List (String × Data)} {e : GenerationError}
    (h : Project.ofData (.dict fields) = .error e) : ∃ name, e = { cause := .unsupportedLanguage name } := by
  unfold Project.ofData at h
  dsimp only at h
  split at h
  · cases h
  · next value hvalue =>
    cases hlanguage : value.asLanguage with
    | error e' =>
      rw [hlanguage] at h
      cases h
      exact Data.exists_of_asLanguage_error hlanguage
    | ok language =>
      rw [hlanguage] at h
      cases h

namespace ConfigFile

open FileSystem

/-- The document that a text is read as. -/
def documentOf (text : String) : Except Yaml.Fault Data :=
  Data.ofYaml (String.ofList (normalizeLines text.toList))

/-- A text fails to configure a project with a fault of the configuration, unless it is well-formed and a scalar in it
is not what it looks like. -/
theorem projectOfText_error {path text : String} {failure : Failure}
    (h : projectOfText path text = .error failure) :
    (∃ fault, failure = .config fault) ∨
      ∃ fault, documentOf text = .error (.scalar fault) ∧ failure = .foreign (foreignKind fault) fault.message := by
  unfold projectOfText at h
  cases hyaml : Data.ofYaml (String.ofList (normalizeLines text.toList)) with
  | error fault =>
    rw [hyaml] at h
    cases fault <;> cases h
    · exact .inl ⟨_, rfl⟩
    · exact .inr ⟨_, hyaml, rfl⟩
  | ok value =>
    rw [hyaml] at h
    left
    cases value with
    | null | dict =>
      dsimp only [Except.bind] at h
      -- the data of a project fail with a language that is not supported, and with nothing else
      split at h
      · cases h
        exact ⟨_, rfl⟩
      · next hother hdata =>
        obtain ⟨name, rfl⟩ := Project.exists_of_ofData_error hdata
        exact absurd rfl (hother _ _ _)
      · cases h
        exact ⟨_, rfl⟩
      · cases h
    | _ =>
      cases h
      exact ⟨_, rfl⟩

/-- The path at which the search from a directory looks for a configuration file after looking at `k` others. -/
def candidate (directory : Path) (k : Nat) : Path :=
  (⟨directory.anchor, directory.names.take (directory.names.length - k)⟩ : Path).child fileName

/-- The search from the parent of a directory looks where that from the directory looks next. -/
theorem candidate_parent {directory : Path} (k : Nat) : candidate directory.parent k = candidate directory (k + 1) := by
  have hnames : directory.names.dropLast.take (directory.names.dropLast.length - k) =
      directory.names.take (directory.names.length - (k + 1)) := by
    rw [List.dropLast_eq_take, List.take_take, List.length_take]
    congr 1
    omega
  show (⟨directory.anchor, directory.names.dropLast.take (directory.names.dropLast.length - k)⟩ : Path).child _ = _
  rw [hnames]
  rfl

/-- The search looks into the directory it starts from first. -/
theorem candidate_zero {directory : Path} : candidate directory 0 = directory.child fileName := by
  show (⟨directory.anchor, directory.names.take directory.names.length⟩ : Path).child fileName = _
  rw [List.take_length]

/-- Whether the look at a path fails after none of the paths before it was that of a file. -/
structure StopsAt (fs : FileSystem) (directory : Path) (k : Nat) (e : SystemError) : Prop where
  /-- The path is in the directory or in one above it. -/
  names : k ≤ directory.names.length
  /-- The looks at the paths before it succeed, and show no file. -/
  before : ∀ j < k, fs.isFile (candidate directory j) = .ok false
  /-- The look at it fails. -/
  fails : fs.status .follow (candidate directory k) = .error e

/-- The first look is the one that fails when it does. -/
theorem stopsAt_zero_iff {fs : FileSystem} {directory : Path} {e : SystemError} :
    StopsAt fs directory 0 e ↔ fs.isFile (directory.child fileName) = .error e := by
  rw [isFile_eq_error_iff, ← candidate_zero]
  exact ⟨fun h => h.fails, fun h => ⟨Nat.zero_le _, by simp, h⟩⟩

/-- A later look is the one that fails when the search from the parent fails at it. -/
theorem stopsAt_succ_iff {fs : FileSystem} {directory : Path} {k : Nat} {e : SystemError} :
    StopsAt fs directory (k + 1) e ↔ directory.names ≠ [] ∧ fs.isFile (directory.child fileName) = .ok false ∧
      StopsAt fs directory.parent k e := by
  have hlength : directory.parent.names.length = directory.names.length - 1 := List.length_dropLast
  constructor
  · rintro ⟨hnames, hbefore, hfails⟩
    refine ⟨?_, candidate_zero ▸ hbefore 0 (Nat.succ_pos k), by omega, fun j hj => ?_, ?_⟩
    · rintro hnil
      simp [hnil] at hnames
    · rw [candidate_parent]
      exact hbefore (j + 1) (Nat.succ_lt_succ hj)
    · rwa [candidate_parent]
  · rintro ⟨hne, hfirst, hnames, hbefore, hfails⟩
    have hpos := List.length_pos_iff.2 hne
    refine ⟨by omega, fun j hj => ?_, by rwa [← candidate_parent]⟩
    cases j with
    | zero => rwa [candidate_zero]
    | succ j =>
      rw [← candidate_parent]
      exact hbefore j (Nat.lt_of_succ_lt_succ hj)

/-- The search fails where the look at a path fails after none of the paths before it was that of a file. -/
theorem searchUpwards_eq_error_iff {fs : FileSystem} {limit : Nat} {directory : Path} {e : SystemError} :
    searchUpwards fs limit directory = .error e ↔ ∃ k < limit, StopsAt fs directory k e := by
  -- on the limit; the search from the parent looks at the same paths, one place later
  induction limit generalizing directory with
  | zero => simp [searchUpwards]
  | succ limit ih =>
    rw [Nat.exists_lt_succ_left, stopsAt_zero_iff]
    simp only [stopsAt_succ_iff]
    rw [searchUpwards]
    cases hfile : fs.isFile (directory.child fileName) with
    | error other => simp [bind, Except.bind]
    | ok found =>
      cases found with
      | true => simp [bind, Except.bind, pure, Except.pure]
      | false =>
        show (if directory.names.isEmpty then pure none else searchUpwards fs limit directory.parent) = _ ↔ _
        by_cases hempty : directory.names.isEmpty
        · rw [if_pos hempty]
          simp [List.isEmpty_iff.1 hempty, pure, Except.pure]
        · rw [if_neg hempty, ih]
          simp [List.isEmpty_eq_false_iff.1 (by simpa using hempty)]

variable {host host' : Host} {given path : Option Path} {failure : Failure}

/-- Why the search for the nearest configuration file cannot go on. -/
inductive Lost (host : Host) : Failure → Prop
  /-- The working directory is gone. -/
  | gone (hgone : isGone host.files.workingDirectory = true) : Lost host (.system (.plain .notFound))
  /-- The path of the working directory is one that cannot be said. -/
  | unsayable {fault : PathFault} (hthere : isGone host.files.workingDirectory = false)
      (hfault : nameFault? (.fromRoot host.files.workingDirectory) = some fault) :
      Lost host (Host.failureOfPath fault)
  /-- The path of the working directory leads on without end. -/
  | endless (hthere : isGone host.files.workingDirectory = false)
      (hfault : nameFault? (.fromRoot host.files.workingDirectory) = none)
      (hendless : host.files.isEndless (host.files.resolve (.fromRoot host.files.workingDirectory)) = true) :
      Lost host (.linkLoop (host.files.resolve (.fromRoot host.files.workingDirectory)).text)
  /-- The path of a file in one of the directories that are looked into, and in none of the nearer ones, is too
  long. -/
  | tooLong {directory : Path} {k : Nat} (hthere : isGone host.files.workingDirectory = false)
      (hresolve : (Host.resolve (.fromRoot host.files.workingDirectory)).run host = (.ok directory, host))
      (hlimit : k < searchLimit) (hnames : k ≤ directory.names.length)
      (hbefore : ∀ j < k, host.files.isFile (candidate directory j) = .ok false)
      (hfault : PathFault.ofText? (candidate directory k).text = none)
      (hlong : host.files.locate .follow (candidate directory k) = .error .nameTooLong) :
      Lost host (.system (.on .nameTooLong (candidate directory k)))

/-- Where the search for the nearest configuration file fails, it does so for one of its causes, and leaves the host
as it is. -/
theorem lost_of_run_find? (h : find?.run host = (.error failure, host')) : host' = host ∧ Lost host failure := by
  unfold find? findFrom at h
  rw [run_bind, run_workingDirectory] at h
  by_cases hgone : isGone host.files.workingDirectory = true
  · rw [if_pos hgone] at h
    cases h
    exact ⟨rfl, .gone hgone⟩
  · have hthere : isGone host.files.workingDirectory = false := by simpa using hgone
    rw [if_neg hgone] at h
    dsimp only at h
    rw [run_bind] at h
    rcases hresolve : (Host.resolve (.fromRoot host.files.workingDirectory)).run host with
      ⟨other | directory, host₁⟩
    · rw [hresolve] at h
      cases h
      obtain ⟨rfl, ⟨fault, hfault, rfl⟩ | ⟨habsolute, -, -⟩ | ⟨hfault, -, hendless, rfl⟩⟩ := run_resolve_error hresolve
      · exact ⟨rfl, .unsayable hthere hfault⟩
      · cases habsolute
      · exact ⟨rfl, .endless hthere hfault hendless⟩
    · -- a look in one of the directories fails
      obtain ⟨rfl, -⟩ := run_resolve_ok_iff.1 hresolve
      rw [hresolve] at h
      dsimp only at h
      rw [run_hostLook] at h
      cases hsearch : searchUpwards host₁.files searchLimit directory with
      | ok found =>
        rw [hsearch] at h
        cases h
      | error e =>
        rw [hsearch] at h
        cases h
        obtain ⟨k, hlimit, hnames, hbefore, hk⟩ := searchUpwards_eq_error_iff.1 hsearch
        obtain ⟨hsay, hlong, rfl⟩ := status_eq_error_iff.1 hk
        exact ⟨rfl, .tooLong hthere hresolve hlimit hnames hbefore hsay hlong⟩

/-! ## The file -/

/-- Why a configuration cannot be loaded that is no fault of a configuration that could be read. -/
inductive Escapes (host : Host) : Option Path → Failure → Prop
  /-- The search for the nearest file cannot go on. -/
  | lost {failure : Failure} (h : Lost host failure) : Escapes host none failure
  /-- The path of the file is too long. -/
  | tooLong {given : Option Path} {p : Path} (hgiven : (givenOrNearest given).run host = (.ok (some p), host))
      (hfault : PathFault.ofText? p.text = none) (hlong : host.files.locate .follow p = .error .nameTooLong) :
      Escapes host given (.system (.on .nameTooLong p))
  /-- The bytes of the file are no text. -/
  | undecodable {given : Option Path} {p : Path} {bytes : List UInt8} {x : Bool}
      (hgiven : (givenOrNearest given).run host = (.ok (some p), host))
      (hfile : host.files.status .follow p = .ok (some (.file (.bytes bytes) x))) :
      Escapes host given .undecodable
  /-- A scalar in the text of the file is not what it looks like. -/
  | scalar {given : Option Path} {p : Path} {text : String} {x : Bool} {fault : Yaml.ScalarFault}
      (hgiven : (givenOrNearest given).run host = (.ok (some p), host))
      (hfile : host.files.status .follow p = .ok (some (.file (.text text) x)))
      (hscalar : documentOf text = .error (.scalar fault)) :
      Escapes host given (.foreign (foreignKind fault) fault.message)

/-- A file is read by a look at it. -/
theorem run_read (p : Path) (host : Host) :
    (read p).run host =
      (match host.files.status .follow p with
        | .error e => .error (.system e)
        | .ok (some (.file (.text text) _)) => projectOfText p.text text
        | .ok (some (.file (.bytes _) _)) => .error .undecodable
        | .ok _ => .error (.config (.notFound p.text)), host) := by
  unfold read
  rw [run_bind, run_hostLook]
  cases host.files.status .follow p with
  | error e => rfl
  | ok found =>
    cases found with
    | none => rfl
    | some entry =>
      cases entry with
      | file content x =>
        cases content with
        | text text =>
          dsimp only [Except.mapError]
          cases projectOfText p.text text <;> rfl
        | bytes values => rfl
      | directory => rfl
      | link target => rfl

/-- Where a file is given or found, what is loaded is what is read from it. -/
theorem run_load_of_found {p : Path} (h : (givenOrNearest given).run host = (.ok (some p), host)) :
    (load given).run host = (load (some p)).run host := by
  unfold load
  rw [run_bind_of_ok h]
  rfl

/-- Loading the file at a path fails as reading it does. -/
theorem run_load_some_error_iff {p : Path} :
    (load (some p)).run host = (.error failure, host') ↔ (read p).run host = (.error failure, host') := by
  unfold load
  rw [run_bind_of_ok (rfl : (givenOrNearest (some p)).run host = (.ok (some p), host))]
  dsimp only
  rw [run_bind]
  rcases (read p).run host with ⟨other | project, host₁⟩
  · exact Iff.rfl
  · refine ⟨fun h => ?_, fun h => (by cases h)⟩
    dsimp only at h
    obtain ⟨noted, hnote, -⟩ := exists_run_note (.configLoaded p.name project.providers.length
      project.modules.length project.language.name) host₁
    rw [run_bind_of_ok hnote] at h
    cases h

/-- How loading a configuration fails: in the search for a file, because there is none, or at the file. -/
inductive LoadFails (host : Host) (given : Option Path) : Failure → Host → Prop
  | search {failure : Failure} (h : (givenOrNearest given).run host = (.error failure, host)) :
      LoadFails host given failure host
  | missing (h : (givenOrNearest given).run host = (.ok none, host)) : LoadFails host given (.config .missing) host
  | file {p : Path} {failure : Failure} {host' : Host} (h : (givenOrNearest given).run host = (.ok (some p), host))
      (hload : (load (some p)).run host = (.error failure, host')) : LoadFails host given failure host'

/-- Loading a configuration fails in one of these ways. -/
theorem loadFails_of_run (h : (load given).run host = (.error failure, host')) :
    LoadFails host given failure host' := by
  rcases hgiven : (givenOrNearest given).run host with ⟨other | found, host₁⟩
  · obtain rfl := run_givenOrNearest_host hgiven
    unfold load at h
    rw [run_bind_of_error hgiven] at h
    cases h
    exact .search hgiven
  · obtain rfl := run_givenOrNearest_host hgiven
    cases found with
    | none =>
      unfold load at h
      rw [run_bind_of_ok hgiven] at h
      cases h
      exact .missing hgiven
    | some p => exact .file hgiven (run_load_of_found hgiven ▸ h)

/-- A search that fails escapes. -/
theorem escapes_of_search (h : (givenOrNearest given).run host = (.error failure, host)) :
    Escapes host given failure := by
  cases given with
  | some p => cases h
  | none => exact .lost (lost_of_run_find? h).2

/-- A configuration fails to be loaded for a fault of it, or because of what escapes. Nothing has changed then. -/
theorem run_load_error (h : (load given).run host = (.error failure, host')) :
    host' = host ∧ ((∃ fault, failure = .config fault) ∨ Escapes host given failure) := by
  cases loadFails_of_run h with
  | search hsearch => exact ⟨rfl, .inr (escapes_of_search hsearch)⟩
  | missing => exact ⟨rfl, .inl ⟨.missing, rfl⟩⟩
  | file hgiven hload =>
    rw [run_load_some_error_iff, run_read] at hload
    obtain ⟨hresult, rfl⟩ := outcome_eq_iff.1 hload
    refine ⟨rfl, ?_⟩
    split at hresult
    · next e hstatus =>
      cases hresult
      obtain ⟨hfault, hlong, rfl⟩ := status_eq_error_iff.1 hstatus
      exact .inr (.tooLong hgiven hfault hlong)
    · next text x hstatus =>
      rcases projectOfText_error hresult with hconfig | ⟨fault, hscalar, rfl⟩
      · exact .inl hconfig
      · exact .inr (.scalar hgiven hstatus hscalar)
    · next bytes x hstatus =>
      cases hresult
      exact .inr (.undecodable hgiven hstatus)
    · cases hresult
      exact .inl ⟨_, rfl⟩

end ConfigFile

open ConfigFile

variable {host host' : Host} {given : Option Path} {failure : Failure} {fault : ConfigFault}

/-! ## Checks and runs -/

namespace RunOptions

variable {o : RunOptions} {s : Session}

end RunOptions

end ProviderBindings
