import ProviderBindings.Generation

/-!
# What a computation comes to

File operations, host operations, and runs are computations on a state that may fail and that keep what they
did before they failed. Here is what each of the ways to put computations together does to an outcome and
a state: `run_bind` for a sequence, `run_tryCatch` for a failure that is caught, and one equation for each of
the steps from files to a host and from a host to a session. A proof about a computation takes it apart
with these and never unfolds the monad.
-/

namespace ProviderBindings

section Sequences

variable {ε σ α β : Type}

/-- Two outcomes are the same when their results and their states are. -/
@[simp]
theorem outcome_eq_iff {r r' : Except ε α} {s s' : σ} :
    @Eq (Id (Except ε α × σ)) (r, s) (r', s') ↔ r = r' ∧ s = s' :=
  Iff.of_eq (Prod.mk.injEq ..)

/-- A sequence goes on with the value of its first part, and ends where that fails. -/
theorem run_bind (x : ExceptT ε (StateM σ) α) (f : α → ExceptT ε (StateM σ) β) (s : σ) :
    (x >>= f).run s =
      match x.run s with
      | (.ok a, s') => (f a).run s'
      | (.error e, s') => (.error e, s') := by
  show (ExceptT.bind x f).run s = _
  simp only [ExceptT.bind, ExceptT.run_mk]
  show (match ExceptT.run x s with | (r, s') => ExceptT.bindCont f r s') = _
  rcases ExceptT.run x s with ⟨a | a, s'⟩ <;> rfl

/-- A sequence whose first part succeeds is what comes after it. -/
theorem run_bind_of_ok {x : ExceptT ε (StateM σ) α} {s s' : σ} {a : α} (h : x.run s = (.ok a, s'))
    (f : α → ExceptT ε (StateM σ) β) : (x >>= f).run s = (f a).run s' := by
  rw [run_bind, h]

/-- A sequence whose first part fails fails with it. -/
theorem run_bind_of_error {x : ExceptT ε (StateM σ) α} {s s' : σ} {e : ε}
    (h : x.run s = (.error e, s')) (f : α → ExceptT ε (StateM σ) β) :
    (x >>= f).run s = (.error e, s') := by
  rw [run_bind, h]

/-- If a sequence succeeds, both of its parts do. -/
theorem exists_of_run_bind_ok {x : ExceptT ε (StateM σ) α} {f : α → ExceptT ε (StateM σ) β} {s t : σ}
    {b : β} (h : (x >>= f).run s = (.ok b, t)) :
    ∃ a s', x.run s = (.ok a, s') ∧ (f a).run s' = (.ok b, t) := by
  rw [run_bind] at h
  split at h
  · next a s' hx => exact ⟨a, s', hx, h⟩
  · cases h

@[simp]
theorem run_pure (a : α) (s : σ) : (pure a : ExceptT ε (StateM σ) α).run s = (.ok a, s) := rfl

@[simp]
theorem run_throw (e : ε) (s : σ) : (throw e : ExceptT ε (StateM σ) α).run s = (.error e, s) := rfl

@[simp]
theorem run_get (s : σ) : (get : ExceptT ε (StateM σ) σ).run s = (.ok s, s) := rfl

@[simp]
theorem run_set (s t : σ) : (set t : ExceptT ε (StateM σ) PUnit).run s = (.ok ⟨⟩, t) := rfl

@[simp]
theorem run_modify (f : σ → σ) (s : σ) :
    (modify f : ExceptT ε (StateM σ) PUnit).run s = (.ok ⟨⟩, f s) := rfl

/-- A failure that is caught is handed on with the state it left. -/
theorem run_tryCatch (x : ExceptT ε (StateM σ) α) (handle : ε → ExceptT ε (StateM σ) α) (s : σ) :
    (tryCatch x handle).run s =
      match x.run s with
      | (.ok a, s') => (.ok a, s')
      | (.error e, s') => (handle e).run s' := by
  show (match ExceptT.run x s with
    | (r, s') => (match r with
      | .ok a => (pure (.ok a) : StateM σ (Except ε α))
      | .error e => handle e : StateM σ (Except ε α)) s') = _
  rcases ExceptT.run x s with ⟨a | a, s'⟩ <;> rfl

/-- What is done for one more after others is done for all of them. -/
theorem run_mapM_concat {f : α → ExceptT ε (StateM σ) β} {as : List α} {a : α} {s t u : σ} {bs : List β} {b : β}
    (h : (as.mapM f).run s = (.ok bs, u)) (ha : (f a).run u = (.ok b, t)) :
    ((as ++ [a]).mapM f).run s = (.ok (bs ++ [b]), t) := by
  have hlast : ([a].mapM f).run u = (.ok [b], t) := by
    rw [List.mapM_cons, run_bind_of_ok ha]
    rfl
  rw [List.mapM_append, run_bind_of_ok h, run_bind_of_ok hlast]
  rfl

/-- A list worked through with success is either empty, or its first member succeeds and so do the
others after it. -/
theorem run_mapM_cons_ok {f : α → ExceptT ε (StateM σ) β} {a : α} {rest : List α} {s t : σ} {bs : List β}
    (h : ((a :: rest).mapM f).run s = (.ok bs, t)) :
    ∃ b s' bs', (f a).run s = (.ok b, s') ∧ (rest.mapM f).run s' = (.ok bs', t) ∧ bs = b :: bs' := by
  rw [List.mapM_cons] at h
  obtain ⟨b, s', hb, h⟩ := exists_of_run_bind_ok h
  obtain ⟨bs', s'', hbs, h⟩ := exists_of_run_bind_ok h
  rw [run_pure] at h
  cases h
  exact ⟨b, s', bs', hb, hbs, rfl⟩

/-- A list whose working through fails was worked through with success up to the member that fails. -/
theorem run_mapM_error {f : α → ExceptT ε (StateM σ) β} {as : List α} {s t : σ} {e : ε}
    (h : (as.mapM f).run s = (.error e, t)) :
    ∃ k a u bs, as[k]? = some a ∧ ((as.take k).mapM f).run s = (.ok bs, u) ∧
      (f a).run u = (.error e, t) := by
  induction as generalizing s with
  | nil => cases h
  | cons a rest ih =>
    rw [List.mapM_cons, run_bind] at h
    rcases hfirst : (f a).run s with ⟨e' | b, s'⟩
    · rw [hfirst] at h
      cases h
      exact ⟨0, a, s, [], rfl, rfl, hfirst⟩
    · rw [hfirst] at h
      dsimp only at h
      rw [run_bind] at h
      rcases hrest : (rest.mapM f).run s' with ⟨e' | bs, t'⟩
      · rw [hrest] at h
        cases h
        obtain ⟨k, c, u, bs, hc, htake, hlast⟩ := ih hrest
        refine ⟨k + 1, c, u, b :: bs, hc, ?_, hlast⟩
        rw [List.take_succ_cons, List.mapM_cons, run_bind_of_ok hfirst, run_bind_of_ok htake, run_pure]
      · rw [hrest] at h
        cases h

end Sequences

/-! ## From files to a host, and from a host to a session -/

/-- Work in a stage comes to what the work comes to, with its failure put into the stage. -/
theorem run_inStage {σ α : Type} (target : Option String) (stage : String)
    (work : ExceptT Failure (StateM σ) α) (s : σ) :
    (inStage target stage work).run s =
      ((work.run s).1.mapError (Failure.inStage target stage), (work.run s).2) := by
  rw [inStage, run_tryCatch]
  rcases work.run s with ⟨e | a, s'⟩ <;> rfl

/-- Work in a stage succeeds as the work does. -/
theorem run_inStage_ok_iff {σ α : Type} {target : Option String} {stage : String}
    {work : ExceptT Failure (StateM σ) α} {s t : σ} {a : α} :
    (inStage target stage work).run s = (.ok a, t) ↔ work.run s = (.ok a, t) := by
  rw [run_inStage]
  rcases work.run s with ⟨e | b, s'⟩
  · constructor <;> intro h <;> cases h
  · exact Iff.rfl

/-- Work in a stage fails as the work does, with the failure put into the stage. -/
theorem run_inStage_of_error {σ α : Type} {work : ExceptT Failure (StateM σ) α} {s t : σ}
    {failure : Failure} (h : work.run s = (.error failure, t)) (target : Option String)
    (stage : String) :
    (inStage target stage work).run s = (.error (failure.inStage target stage), t) := by
  rw [run_inStage, h]
  rfl

/-- File work on a host. -/
theorem run_withFiles {α : Type} (work : FileAction α) (host : Host) :
    (Host.withFiles work).run host =
      ((work.run host.files).1.mapError Host.failureOf,
        { host with files := (work.run host.files).2 }) := by
  show Host.withFiles work host = _
  unfold Host.withFiles
  rcases work.run host.files with ⟨e | a, files⟩ <;> rfl

/-- File work succeeds on a host as it does on the host's files. -/
theorem run_withFiles_ok_iff {α : Type} {work : FileAction α} {host host' : Host} {a : α} :
    (Host.withFiles work).run host = (.ok a, host') ↔
      ∃ files, work.run host.files = (.ok a, files) ∧ host' = { host with files } := by
  rw [run_withFiles]
  rcases work.run host.files with ⟨e | b, files⟩
  · constructor
    · intro h; cases h
    · rintro ⟨files', h, -⟩; cases h
  · constructor
    · intro h; cases h; exact ⟨files, rfl, rfl⟩
    · rintro ⟨files', h, rfl⟩; cases h; rfl

/-- Host work in a session. -/
theorem run_onHost {α : Type} (work : HostAction α) (s : Session) :
    (Run.onHost work).run s = ((work.run s.host).1, { s with host := (work.run s.host).2 }) := rfl

/-- Host work succeeds in a session as it does on the session's host. -/
theorem run_onHost_ok_iff {α : Type} {work : HostAction α} {s t : Session} {a : α} :
    (Run.onHost work).run s = (.ok a, t) ↔
      ∃ host, work.run s.host = (.ok a, host) ∧ t = { s with host } := by
  rw [run_onHost]
  rcases work.run s.host with ⟨r, host⟩
  constructor
  · intro h; cases h; exact ⟨host, rfl, rfl⟩
  · rintro ⟨host', h, rfl⟩; cases h; rfl

/-- An attempt never fails. -/
@[simp]
theorem run_attempt {α : Type} (work : Run α) (s : Session) :
    (Run.attempt work).run s = (.ok (work.run s).1, (work.run s).2) := rfl

/-- A look at the files changes nothing. -/
theorem run_look {α : Type} (view : FileSystem → Except SystemError α) (fs : FileSystem) :
    (FileSystem.look view).run fs = ((view fs).mapError .system, fs) := by
  rw [FileSystem.look, run_bind, run_get]
  dsimp only
  cases view fs <;> rfl

/-- A look at the files of a host changes nothing. -/
theorem run_hostLook {α : Type} (view : FileSystem → Except SystemError α) (host : Host) :
    (Host.look view).run host = ((view host.files).mapError .system, host) := by
  rw [Host.look, run_withFiles, run_look]
  cases view host.files <;> rfl

/-- The working directory is given unless it is gone. -/
theorem run_workingDirectory (host : Host) :
    Host.workingDirectory.run host =
      (if FileSystem.isGone host.files.workingDirectory then .error (.system (.plain .notFound))
        else .ok (.fromRoot host.files.workingDirectory), host) := by
  rw [Host.workingDirectory, run_bind, run_get]
  dsimp only
  split <;> rfl

/-- What a path resolves to on a host, where nothing changes. -/
theorem run_resolve (p : Path) (host : Host) :
    (Host.resolve p).run host =
      (match FileSystem.nameFault? p with
        | some fault => .error (Host.failureOfPath fault)
        | none =>
          if p.isAbsolute = false ∧ FileSystem.isGone host.files.workingDirectory = true then
            .error (.system (.plain .notFound))
          else if host.files.isEndless (host.files.resolve p) then
            .error (.linkLoop (host.files.resolve p).text)
          else .ok (host.files.resolve p), host) := by
  unfold Host.resolve
  cases FileSystem.nameFault? p with
  | some fault => rfl
  | none =>
    -- what is left once the path is known to have a start
    have hlast : ((do
        let fs := (← get).files
        let path := fs.resolve p
        if fs.isEndless path then throw (.linkLoop path.text) else pure path :
          HostAction Path).run host) =
        (if host.files.isEndless (host.files.resolve p) then
          .error (.linkLoop (host.files.resolve p).text) else .ok (host.files.resolve p), host) := by
      rw [run_bind, run_get]
      dsimp only
      split <;> rfl
    by_cases ha : p.isAbsolute = true
    · simp only [ha, Bool.not_true, Bool.false_eq_true, if_false, Bool.true_eq_false, false_and]
      exact hlast
    · have hrelative : p.isAbsolute = false := by simpa using ha
      simp only [hrelative, Bool.not_false, if_true, true_and]
      rw [run_bind, run_workingDirectory]
      by_cases hg : FileSystem.isGone host.files.workingDirectory = true
      · simp only [hg, if_true]
      · simp only [hg]
        exact hlast

/-- A path resolves on a host when it has a meaning there, and nothing changes. -/
theorem run_resolve_ok_iff {p path : Path} {host host' : Host} :
    (Host.resolve p).run host = (.ok path, host') ↔
      host' = host ∧ FileSystem.nameFault? p = none ∧
        (p.isAbsolute ∨ FileSystem.isGone host.files.workingDirectory = false) ∧
        path = host.files.resolve p ∧ host.files.isEndless path = false := by
  have hstart : (p.isAbsolute ∨ FileSystem.isGone host.files.workingDirectory = false) ↔
      ¬(p.isAbsolute = false ∧ FileSystem.isGone host.files.workingDirectory = true) := by
    rw [Classical.not_and_iff_not_or_not, Bool.not_eq_false, Bool.not_eq_true]
  rw [run_resolve, Prod.mk.injEq, hstart]
  constructor
  · rintro ⟨h, rfl⟩
    split at h
    · cases h
    · next hfault =>
      split at h
      · cases h
      · next hmeaning =>
        split at h
        · cases h
        · next hendless =>
          cases h
          exact ⟨rfl, hfault, hmeaning, rfl, by simpa using hendless⟩
  · rintro ⟨rfl, hfault, hmeaning, rfl, hendless⟩
    rw [hfault]
    dsimp only
    rw [if_neg hmeaning, if_neg (by simp [hendless])]
    exact ⟨rfl, rfl⟩

/-- A path that resolves does so without changing the host. -/
theorem exists_run_resolve {p : Path} {host : Host}
    (h : ((Host.resolve p).run host).1.toOption.isSome) :
    ∃ path, (Host.resolve p).run host = (.ok path, host) := by
  rcases hrun : (Host.resolve p).run host with ⟨failure | path, host'⟩
  · rw [hrun] at h
    cases h
  · obtain ⟨rfl, -⟩ := run_resolve_ok_iff.1 hrun
    exact ⟨path, rfl⟩

/-- A path that does not resolve holds what no path can, starts at a working directory that is gone, or has
links that lead on without end. Nothing changes. -/
theorem run_resolve_error {p : Path} {host host' : Host} {failure : Failure}
    (h : (Host.resolve p).run host = (.error failure, host')) :
    host' = host ∧
      ((∃ fault, FileSystem.nameFault? p = some fault ∧ failure = Host.failureOfPath fault) ∨
        (p.isAbsolute = false ∧ FileSystem.isGone host.files.workingDirectory = true ∧
          failure = .system (.plain .notFound)) ∨
        (FileSystem.nameFault? p = none ∧
          (p.isAbsolute ∨ FileSystem.isGone host.files.workingDirectory = false) ∧
          host.files.isEndless (host.files.resolve p) = true ∧
          failure = .linkLoop (host.files.resolve p).text)) := by
  rw [run_resolve, Prod.mk.injEq] at h
  obtain ⟨h, rfl⟩ := h
  refine ⟨rfl, ?_⟩
  split at h
  · next fault hfault =>
    cases h
    exact .inl ⟨fault, hfault, rfl⟩
  · next hfault =>
    split at h
    · next hlost =>
      cases h
      exact .inr (.inl ⟨hlost.1, hlost.2, rfl⟩)
    · next hstart =>
      split at h
      · next hendless =>
        cases h
        rw [Classical.not_and_iff_not_or_not, Bool.not_eq_false, Bool.not_eq_true] at hstart
        exact .inr (.inr ⟨hfault, hstart, hendless, rfl⟩)
      · cases h

/-- Whether a host is another after notices were left in the log. -/
structure Noted (host host' : Host) : Prop where
  /-- At most a line was added to the log file. -/
  files : ∃ line, host'.files = host.files.writeHeld line
  /-- No staging directory was made. -/
  staged : host'.staged = host.staged
  /-- Temporary files go where they went. -/
  temporary : host'.temporary = host.temporary

/-- A notice in the log notes something on a host. -/
theorem exists_run_note (n : Notice) (host : Host) :
    ∃ host', (Host.note n).run host = (.ok (), host') ∧ Noted host host' :=
  ⟨_, rfl, ⟨_, rfl⟩, rfl, rfl⟩

/-- A notice in the log of a session notes something on its host. -/
theorem exists_noted (n : Notice) (s : Session) :
    ∃ host, (Run.note n).run s = (.ok (), { s with host }) ∧ Noted s.host host :=
  ⟨_, rfl, ⟨_, rfl⟩, rfl, rfl⟩

end ProviderBindings
