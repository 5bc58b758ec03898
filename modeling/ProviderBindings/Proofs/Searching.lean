import Mathlib.Data.List.Infix
import ProviderBindings.Proofs.Collecting
import ProviderBindings.Proofs.Loading

/-!
# The nearest configuration file

The search for a configuration file looks into a directory and those above it. `Path.upwards` is that chain as a list,
and `Nearest` says what comes of a look into each directory of a list in turn: the file of the first that has one, or
nothing where all of them lack it, or the failure of the first look that fails. There is one thing that can come of it
(`Nearest.unique`), so that directories that lack the file make no difference where they come first
(`Nearest.append`). From this follows that the search from a directory comes to the same as that from any directory below
it which is not nearer to another file.
-/

namespace ProviderBindings

/-! ## The way up -/

namespace Path

variable {directory below d : Path}

/-- A directory and all that are above it by the names of its path, nearest first. -/
def upwards (directory : Path) : List Path :=
  directory.names.inits.reverse.map fun names => ⟨directory.anchor, names⟩

/-- What is on the way up from a directory has the first of its names. -/
theorem mem_upwards : d ∈ directory.upwards ↔ d.anchor = directory.anchor ∧ d.names <+: directory.names := by
  unfold upwards
  simp only [List.mem_map, List.mem_reverse, List.mem_inits]
  constructor
  · rintro ⟨names, hnames, rfl⟩
    exact ⟨rfl, hnames⟩
  · rintro ⟨hanchor, hnames⟩
    exact ⟨d.names, hnames, by rw [← hanchor]⟩

/-- There is one more directory on the way up than there are names. -/
theorem length_upwards (directory : Path) : directory.upwards.length = directory.names.length + 1 := by
  simp [upwards]

/-- The way up from the top ends there. -/
theorem upwards_eq_singleton (h : directory.names = []) : directory.upwards = [directory] := by
  unfold upwards
  rw [h, List.inits, List.reverse_singleton, List.map_singleton, ← h]

/-- The way up from a directory that is not at the top goes through its parent. -/
theorem upwards_eq_cons (h : directory.names ≠ []) : directory.upwards = directory :: directory.parent.upwards := by
  obtain ⟨anchor, names⟩ := directory
  obtain ⟨front, last, rfl⟩ := List.eq_nil_or_concat' names |>.resolve_left h
  simp [upwards, parent, List.inits_append]

example : (fromRoot ["a", "b"]).upwards = [fromRoot ["a", "b"], fromRoot ["a"], fromRoot []] := by decide

/-- The way up from a directory goes through all directories above it, and on as it goes from there. -/
theorem exists_upwards_eq_append (h : directory ∈ below.upwards) :
    ∃ nearer, below.upwards = nearer ++ directory.upwards ∧ ∀ d ∈ nearer, d ∉ directory.upwards := by
  obtain ⟨hanchor, more, hnames⟩ := mem_upwards.1 h
  refine ⟨(more.inits.tail.map (directory.names ++ ·)).reverse.map fun names => ⟨directory.anchor, names⟩, ?_, ?_⟩
  · unfold upwards
    rw [← hnames, ← hanchor, List.inits_append, List.reverse_append, List.map_append]
  · -- what is nearer has more names
    intro d hd hup
    obtain ⟨names, hmem, rfl⟩ := List.mem_map.1 hd
    obtain ⟨rest, hrest, rfl⟩ := List.mem_map.1 (List.mem_reverse.1 hmem)
    have hlength := (mem_upwards.1 hup).2.length_le
    rw [List.length_append] at hlength
    obtain rfl : rest = [] := List.length_eq_zero_iff.1 (by omega)
    revert hrest
    cases more with
    | nil => simp
    | cons first more => simp

end Path

namespace ConfigFile

open FileSystem

variable {fs : FileSystem} {d : Path} {directories : List Path} {result other : Except SystemError (Option Path)}

/-! ## The nearest file -/

/-- Whether a look into a directory shows that there is no configuration file in it. -/
def Lacks (fs : FileSystem) (d : Path) : Prop :=
  (∃ found, fs.status .follow (d.child fileName) = .ok found) ∧ ¬fs.HasFile (d.child fileName)

/-- What comes of a look into directories, one after the other. -/
inductive Nearest (fs : FileSystem) (directories : List Path) : Except SystemError (Option Path) → Prop
  /-- None of them has a configuration file. -/
  | nothing (hall : ∀ d ∈ directories, Lacks fs d) : Nearest fs directories (.ok none)
  /-- One of them has it, and those before it do not. -/
  | found {before after : List Path} {d : Path} (hsplit : directories = before ++ d :: after)
      (hbefore : ∀ b ∈ before, Lacks fs b) (hfile : fs.HasFile (d.child fileName)) :
      Nearest fs directories (.ok (some (d.child fileName)))
  /-- A name or a path is too long for a look into one of them, and those before it do not have it. -/
  | failed {before after : List Path} {d : Path} (hsplit : directories = before ++ d :: after)
      (hbefore : ∀ b ∈ before, Lacks fs b)
      (hlong : fs.status .follow (d.child fileName) = .error (.on .nameTooLong (d.child fileName))) :
      Nearest fs directories (.error (.on .nameTooLong (d.child fileName)))

/-- Directories that lack the file make no difference where they come first. -/
theorem Nearest.append {nearer : List Path} (hnearer : ∀ b ∈ nearer, Lacks fs b) (h : Nearest fs directories result) :
    Nearest fs (nearer ++ directories) result := by
  cases h with
  | nothing hall => exact .nothing (List.forall_mem_append.2 ⟨hnearer, hall⟩)
  | @found before after d hsplit hbefore hfile =>
    have hwhole : nearer ++ directories = (nearer ++ before) ++ d :: after := by rw [hsplit, List.append_assoc]
    exact .found hwhole (List.forall_mem_append.2 ⟨hnearer, hbefore⟩) hfile
  | @failed before after d hsplit hbefore hlong =>
    have hwhole : nearer ++ directories = (nearer ++ before) ++ d :: after := by rw [hsplit, List.append_assoc]
    exact .failed hwhole (List.forall_mem_append.2 ⟨hnearer, hbefore⟩) hlong

/-- What comes of the first directory and the others: its file, the failure of the look into it, or what comes of the
others where it lacks the file. -/
theorem nearest_cons_iff :
    Nearest fs (d :: directories) result ↔
      (fs.HasFile (d.child fileName) ∧ result = .ok (some (d.child fileName))) ∨
        (fs.status .follow (d.child fileName) = .error (.on .nameTooLong (d.child fileName)) ∧
          result = .error (.on .nameTooLong (d.child fileName))) ∨
        (Lacks fs d ∧ Nearest fs directories result) := by
  constructor
  · rintro (hall | ⟨hsplit, hbefore, hfile⟩ | ⟨hsplit, hbefore, hlong⟩)
    · obtain ⟨hfirst, hrest⟩ := List.forall_mem_cons.1 hall
      exact .inr (.inr ⟨hfirst, .nothing hrest⟩)
    · next before after _ =>
      cases before with
      | nil =>
        cases hsplit
        exact .inl ⟨hfile, rfl⟩
      | cons first before =>
        cases hsplit
        obtain ⟨hfirst, hrest⟩ := List.forall_mem_cons.1 hbefore
        exact .inr (.inr ⟨hfirst, .found rfl hrest hfile⟩)
    · next before after _ =>
      cases before with
      | nil =>
        cases hsplit
        exact .inr (.inl ⟨hlong, rfl⟩)
      | cons first before =>
        cases hsplit
        obtain ⟨hfirst, hrest⟩ := List.forall_mem_cons.1 hbefore
        exact .inr (.inr ⟨hfirst, .failed rfl hrest hlong⟩)
  · rintro (⟨hfile, rfl⟩ | ⟨hlong, rfl⟩ | ⟨hlacks, hrest⟩)
    · exact .found (List.nil_append _).symm nofun hfile
    · exact .failed (List.nil_append _).symm nofun hlong
    · exact Nearest.append (List.forall_mem_singleton.2 hlacks) hrest

/-- There is one thing that comes of a look into directories. -/
theorem Nearest.unique (h : Nearest fs directories result) (ho : Nearest fs directories other) : result = other := by
  have hnil : ∀ {r}, Nearest fs [] r → r = .ok none := by
    rintro r (hall | ⟨hsplit, -, -⟩ | ⟨hsplit, -, -⟩)
    · rfl
    · simp at hsplit
    · simp at hsplit
  induction directories with
  | nil => rw [hnil h, hnil ho]
  | cons d directories ih =>
    -- that a directory has the file, that the look into it fails and that it lacks the file exclude one another
    rcases nearest_cons_iff.1 h with ⟨hfile, rfl⟩ | ⟨hlong, rfl⟩ | ⟨hlacks, hrest⟩ <;>
      rcases nearest_cons_iff.1 ho with ⟨hfile', rfl⟩ | ⟨hlong', rfl⟩ | ⟨hlacks', hrest'⟩
    · rfl
    · obtain ⟨_, _, hfound⟩ := hfile
      rw [hlong'] at hfound
      cases hfound
    · exact absurd hfile hlacks'.2
    · obtain ⟨_, _, hfound⟩ := hfile'
      rw [hlong] at hfound
      cases hfound
    · rfl
    · obtain ⟨_, hfound⟩ := hlacks'.1
      rw [hlong] at hfound
      cases hfound
    · exact absurd hfile' hlacks.2
    · obtain ⟨_, hfound⟩ := hlacks.1
      rw [hlong'] at hfound
      cases hfound
    · exact ih hrest hrest'

/-- The search looks into as many directories on the way up as its limit says, one after the other. -/
theorem nearest_searchUpwards (fs : FileSystem) (limit : Nat) (directory : Path) :
    Nearest fs (directory.upwards.take limit) (searchUpwards fs limit directory) := by
  -- on the limit; what is left of the way up is the way up from the parent
  induction limit generalizing directory with
  | zero => exact .nothing (List.forall_mem_nil _)
  | succ limit ih =>
    have hway : directory.upwards.take (limit + 1) =
        directory :: if directory.names.isEmpty then [] else directory.parent.upwards.take limit := by
      by_cases hempty : directory.names = []
      · rw [Path.upwards_eq_singleton hempty, List.take_succ_cons, List.take_nil, if_pos (by simp [hempty])]
      · rw [Path.upwards_eq_cons hempty, List.take_succ_cons, if_neg (by simpa using hempty)]
    rw [hway, searchUpwards]
    rcases hlook : fs.isFile (directory.child fileName) with e | _ | _
    · rw [isFile_eq_error_iff] at hlook
      obtain ⟨-, -, rfl⟩ := status_eq_error_iff.1 hlook
      exact nearest_cons_iff.2 (.inr (.inl ⟨hlook, rfl⟩))
    · refine nearest_cons_iff.2 (.inr (.inr ⟨isFile_eq_false_iff.1 hlook, ?_⟩))
      show Nearest fs _ (if directory.names.isEmpty then pure none else searchUpwards fs limit directory.parent)
      split
      · exact .nothing (List.forall_mem_nil _)
      · exact ih directory.parent
    · exact nearest_cons_iff.2 (.inl ⟨isFile_eq_true_iff.1 hlook, rfl⟩)

/-! ## The search from a directory -/

variable {host : Host} {start directory below : Path}

/-- A search from a path that resolves comes to what is nearest to the directory that the path resolves to. -/
theorem run_findFrom (hresolve : (Host.resolve start).run host = (.ok directory, host)) :
    (findFrom start).run host = ((searchUpwards host.files searchLimit directory).mapError .system, host) := by
  unfold findFrom
  rw [run_bind_of_ok hresolve, run_hostLook]

/-- A search from below comes to the same, where no directory on the way has the file. -/
theorem searchUpwards_of_below (habove : directory ∈ below.upwards) (hdeep : below.names.length < searchLimit)
    (hlacks : ∀ d ∈ below.upwards, d ∉ directory.upwards → Lacks fs d) :
    searchUpwards fs searchLimit below = searchUpwards fs searchLimit directory := by
  obtain ⟨nearer, hway, hnearer⟩ := Path.exists_upwards_eq_append habove
  -- both searches get to the top
  have hbelow := nearest_searchUpwards fs searchLimit below
  have hdirectory := nearest_searchUpwards fs searchLimit directory
  have hlength := (Path.mem_upwards.1 habove).2.length_le
  rw [List.take_of_length_le (by rw [Path.length_upwards]; omega)] at hbelow hdirectory
  have hfirst : ∀ d ∈ nearer, Lacks fs d := fun d hd =>
    hlacks d (hway ▸ List.mem_append_left _ hd) (hnearer d hd)
  rw [hway] at hbelow
  exact hbelow.unique (hdirectory.append hfirst)

/-- A path that leads to a directory resolves to it, and a search from a path that resolves comes to what is nearest to
the directory that it resolves to, among the first twenty on the way up. A search without a path is one from the working
directory, and one from below comes to the same where no directory on the way has the file. -/
theorem findFrom_nearest (host : Host) (start : Path) :
    (host.files.Grounded → start.Sayable → (start.isAbsolute ∨ isGone host.files.workingDirectory = false) →
      ∀ place, host.files.locate .follow start = .ok place → host.files.get? place = some .directory →
        (Host.resolve start).run host = (.ok (.fromRoot place), host)) ∧
    ∀ directory, (Host.resolve start).run host = (.ok directory, host) →
      (∃ result, (findFrom start).run host = (result.mapError .system, host) ∧
        Nearest host.files (directory.upwards.take 20) result) ∧
      (start = .fromRoot host.files.workingDirectory → isGone host.files.workingDirectory = false →
        find?.run host = (findFrom start).run host) ∧
      ∀ sub below, (Host.resolve sub).run host = (.ok below, host) → directory ∈ below.upwards →
        below.names.length < 20 → (∀ d ∈ below.upwards, d ∉ directory.upwards → Lacks host.files d) →
        (findFrom sub).run host = (findFrom start).run host := by
  refine ⟨fun hgrounded hsay hthere place hlocate hdirectory => ?_, fun directory hresolve => ⟨?_, ?_, ?_⟩⟩
  · exact (hgrounded.run_resolve host hsay hthere hlocate hdirectory).1
  · exact ⟨_, run_findFrom hresolve, nearest_searchUpwards ..⟩
  · rintro rfl hthere
    unfold find?
    rw [run_bind_of_ok (by rw [run_workingDirectory, hthere]; rfl)]
  · intro sub below hbelow habove hdeep hlacks
    rw [run_findFrom hbelow, run_findFrom hresolve, searchUpwards_of_below habove hdeep hlacks]

/-- A host with a project, in which one directory has a directory in the place of the configuration file, and another a
link to a name that is too long for any file. -/
def projectHost : Host where
  files :=
    { entries := [(["p"], .directory), (["p", "bindgen.yml"], .file (.text "language: python\n") false),
        (["p", "a"], .directory), (["p", "a", "bindgen.yml"], .directory),
        (["p", "b"], .directory), (["p", "b", "bindgen.yml"], .link Harvester.longName)]
      workingDirectory := ["p"] }
  temporary := .fromRoot ["tmp"]

/-- The directories of the project resolve to themselves. -/
theorem run_resolve_project {place : Location} (h : place ∈ [["p"], ["p", "a"], ["p", "b"]]) :
    (Host.resolve (.fromRoot place)).run projectHost = (.ok (.fromRoot place), projectHost) := by
  have hall : ∀ place ∈ [["p"], ["p", "a"], ["p", "b"]],
      nameFault? (.fromRoot place) = none ∧ Path.fromRoot place = projectHost.files.resolve (.fromRoot place) ∧
        projectHost.files.isEndless (.fromRoot place) = false := by decide +kernel
  obtain ⟨hfault, hplace, hends⟩ := hall place h
  exact run_resolve_ok_iff.2 ⟨rfl, hfault, .inl rfl, hplace, hends⟩

/-- The working directory of the project is found, and the search from below comes to the same. -/
theorem findFrom_nearest_project :
    (Host.resolve (.fromRoot ["p"])).run projectHost = (.ok (.fromRoot ["p"]), projectHost) ∧
      (∃ result, (findFrom (.fromRoot ["p"])).run projectHost = (result.mapError .system, projectHost) ∧
        Nearest projectHost.files ((Path.fromRoot ["p"]).upwards.take 20) result) ∧
      find?.run projectHost = (findFrom (.fromRoot ["p"])).run projectHost ∧
      (findFrom (.fromRoot ["p", "a"])).run projectHost = (findFrom (.fromRoot ["p"])).run projectHost := by
  have hgrounded : projectHost.files.Grounded := by
    obtain ⟨hsplit, hsegmented⟩ := Harvester.segmented_longName
    refine grounded_of_entries (by decide) (by decide) (by decide) fun location target h => ?_
    simp only [projectHost, List.mem_cons, Prod.mk.injEq, Entry.link.injEq, reduceCtorEq, and_false, false_or,
      List.not_mem_nil, or_false] at h
    obtain ⟨-, rfl⟩ := h
    exact (hsegmented _ (by simp [hsplit])).2
  have hsay : (Path.fromRoot ["p"]).Sayable := ⟨by decide, by decide⟩
  have hbetween : ∀ d ∈ (Path.fromRoot ["p", "a"]).upwards, d ∉ (Path.fromRoot ["p"]).upwards →
      Lacks projectHost.files d := by
    intro d hd hno
    have hway : (Path.fromRoot ["p", "a"]).upwards = Path.fromRoot ["p", "a"] :: (Path.fromRoot ["p"]).upwards := by
      decide
    rw [hway] at hd
    rcases List.mem_cons.1 hd with rfl | hd
    · exact isFile_eq_false_iff.1 (by decide +kernel)
    · exact absurd hd hno
  obtain ⟨hthere, hall⟩ := findFrom_nearest projectHost (.fromRoot ["p"])
  obtain ⟨hfind, hdefault, hbelow⟩ := hall _ (run_resolve_project (by decide))
  exact ⟨hthere hgrounded hsay (.inl rfl) ["p"] (by decide +kernel) (by decide), hfind, hdefault rfl (by decide),
    hbelow _ _ (run_resolve_project (by decide)) (by decide) (by decide) hbetween⟩

/-- The search does not find the nearest file always. A link that leads nowhere stops it where the name that it leads to
is too long. -/
theorem not_found_always :
    ¬∀ (host : Host) (start directory : Path), (Host.resolve start).run host = (.ok directory, host) →
      (∃ d ∈ directory.upwards.take 20, host.files.HasFile (d.child fileName)) →
      ∃ p, (findFrom start).run host = (.ok (some p), host) := by
  intro hall
  have hresolve : (Host.resolve (.fromRoot ["p", "b"])).run projectHost = (.ok (.fromRoot ["p", "b"]), projectHost) :=
    run_resolve_project (by decide)
  obtain ⟨hsplit, hsegmented⟩ := Harvester.segmented_longName
  have hlocate : projectHost.files.locate .follow ((Path.fromRoot ["p", "b"]).child fileName) = .error .nameTooLong := by
    have hplain : StartsPlain Harvester.longName := hsegmented _ (by simp [hsplit])
    unfold locate locateRoute
    rw [if_neg (by decide)]
    exact locateFrom_of_long_link rfl hsplit hplain.ne (by decide +kernel)
  have hlong : projectHost.files.status .follow ((Path.fromRoot ["p", "b"]).child fileName) =
      .error (.on .nameTooLong ((Path.fromRoot ["p", "b"]).child fileName)) :=
    status_eq_error_iff.2 ⟨by decide, hlocate, rfl⟩
  have hway : (Path.fromRoot ["p", "b"]).upwards.take searchLimit =
      [.fromRoot ["p", "b"], .fromRoot ["p"], .fromRoot []] := by decide
  have hstop : Nearest projectHost.files ((Path.fromRoot ["p", "b"]).upwards.take searchLimit)
      (.error (.on .nameTooLong ((Path.fromRoot ["p", "b"]).child fileName))) := by
    rw [hway]
    exact nearest_cons_iff.2 (.inr (.inl ⟨hlong, rfl⟩))
  have hfile : projectHost.files.HasFile ((Path.fromRoot ["p"]).child fileName) :=
    isFile_eq_true_iff.1 (by decide +kernel)
  obtain ⟨p, hfound⟩ := hall projectHost _ _ hresolve ⟨.fromRoot ["p"], by decide, hfile⟩
  rw [run_findFrom hresolve, (nearest_searchUpwards ..).unique hstop] at hfound
  cases hfound

end ConfigFile

end ProviderBindings
