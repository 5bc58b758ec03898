import ProviderBindings.Proofs.FileSystem.Making

/-!
# What removing and moving come to

Each operation that removes or moves something is looked at once here, and all that it can come to is put down: the
failures that change nothing, and each change with the checks that were passed on the way to it (`unlinks_of_run`,
`removesTree_of_run`, `renames_of_run`, `moves_of_run`). What is said of an operation elsewhere is by cases on what it
came to, and does not go through its checks again.
-/

namespace ProviderBindings.FileSystem

variable {fs t : FileSystem} {ending : Ending} {result : Except FileFailure Unit}

/-! ## Failures -/

/-- Whether a failure is an error of the operating system, or the fault of a text that is no path. -/
inductive Fails (texts : List String) : FileFailure → Prop
  | system (e : SystemError) : Fails texts (.system e)
  | unnameable {s : String} {fault : PathFault} (hs : s ∈ texts) (hfault : PathFault.ofText? s = some fault) :
      Fails texts (.unnameable fault)

/-- Where all texts are paths, what fails does so with an error of the operating system. -/
theorem Fails.exists_system {texts : List String} {failure : FileFailure} (h : Fails texts failure)
    (hsaid : ∀ s ∈ texts, PathFault.ofText? s = none) : ∃ e, failure = .system e := by
  cases h with
  | system e => exact ⟨e, rfl⟩
  | unnameable hs hfault =>
    rw [hsaid _ hs] at hfault
    cases hfault

/-- What fails for texts fails for more of them. -/
theorem Fails.mono {texts more : List String} {failure : FileFailure} (h : Fails texts failure)
    (hsub : texts ⊆ more) : Fails more failure := by
  cases h with
  | system e => exact .system e
  | unnameable hs hfault => exact .unnameable (hsub hs) hfault

/-- What starts with following a path fails with that and changes nothing, or goes on where the path leads. -/
theorem run_bind_locateM_cases {p : Path} {rest : Location → FileAction Unit}
    (h : (locateM ending p >>= rest).run fs = (result, t)) :
    (t = fs ∧ ∃ failure, result = .error failure ∧ Fails [p.text] failure) ∨
      PathFault.ofText? p.text = none ∧ ∃ place, fs.locate ending p = .ok place ∧
        (rest place).run fs = (result, t) := by
  rw [run_bind, run_locateM] at h
  cases hfault : PathFault.ofText? p.text with
  | some fault =>
    rw [hfault] at h
    cases h
    exact .inl ⟨rfl, _, rfl, .unnameable (by simp) hfault⟩
  | none =>
    rw [hfault] at h
    cases hl : fs.locate ending p with
    | error e =>
      rw [hl] at h
      cases h
      exact .inl ⟨rfl, _, rfl, .system _⟩
    | ok place =>
      rw [hl] at h
      exact .inr ⟨rfl, place, rfl, h⟩

/-! ## Removing -/

/-- What removing a file or a link comes to. -/
inductive Unlinks (p : Path) (fs : FileSystem) : Except FileFailure Unit → FileSystem → Prop
  | failed {failure : FileFailure} (h : Fails [p.text] failure) : Unlinks p fs (.error failure) fs
  | removed {place : Location} {entry : Entry} (hfault : PathFault.ofText? p.text = none)
      (hl : fs.locate .keep p = .ok place) (hentry : fs.get? place = some entry) (hplain : entry ≠ .directory) :
      Unlinks p fs (.ok ()) (fs.remove place)

/-- A file or a link is removed in one of these ways. -/
theorem unlinks_of_run {p : Path} (h : (unlink p).run fs = (result, t)) : Unlinks p fs result t := by
  rw [unlink] at h
  rcases run_bind_locateM_cases h with ⟨rfl, failure, rfl, hfails⟩ | ⟨hfault, place, hl, hrest⟩
  · exact .failed hfails
  · rw [run_bind, run_get] at hrest
    dsimp only at hrest
    split at hrest
    · cases hrest
      exact .failed (.system _)
    · cases hrest
      exact .failed (.system _)
    · next entry hplain hentry =>
      cases hrest
      exact .removed hfault hl hentry hplain

/-- What removing an empty directory comes to. -/
inductive Removes (p : Path) (fs : FileSystem) : Except FileFailure Unit → FileSystem → Prop
  | failed {failure : FileFailure} (h : Fails [p.text] failure) : Removes p fs (.error failure) fs
  | removed {place : Location} {name : String} (hfault : PathFault.ofText? p.text = none)
      (hlast : p.names.getLast? = some name) (hup : name ≠ "..") (hl : fs.locate .keep p = .ok place)
      (hd : fs.get? place = some .directory) (hempty : fs.isEmptyBelow place = true) :
      Removes p fs (.ok ()) (fs.remove place)

/-- An empty directory is removed in one of these ways. -/
theorem removes_of_run {p : Path} (h : (removeDirectory p).run fs = (result, t)) : Removes p fs result t := by
  rw [removeDirectory] at h
  rcases run_bind_locateM_cases h with ⟨rfl, failure, rfl, hfails⟩ | ⟨hfault, place, hl, hrest⟩
  · exact .failed hfails
  · rw [run_bind, run_get] at hrest
    dsimp only at hrest
    split at hrest
    · cases hrest
      exact .failed (.system _)
    · cases hrest
      exact .failed (.system _)
    · cases hrest
      exact .failed (.system _)
    · next name hup hlast hd =>
      split at hrest
      · next hempty =>
        cases hrest
        exact .removed hfault hlast hup hl hd hempty
      · cases hrest
        exact .failed (.system _)
    · cases hrest
      exact .failed (.system _)

/-- What removing a directory with all that is below it comes to: it is cleared, and removed then. -/
inductive RemovesTree (p : Path) (fs : FileSystem) : Except FileFailure Unit → FileSystem → Prop
  | failed {failure : FileFailure} (h : Fails [p.text] failure) : RemovesTree p fs (.error failure) fs
  | cleared {place : Location} {result : Except FileFailure Unit} {t : FileSystem}
      (hfault : PathFault.ofText? p.text = none) (hl : fs.locate .keep p = .ok place)
      (hd : fs.get? place = some .directory) (hremoves : Removes p (fs.clear place) result t) :
      RemovesTree p fs result t

/-- A directory is removed with all that is below it in one of these ways. -/
theorem removesTree_of_run {p : Path} (h : (removeTree p).run fs = (result, t)) : RemovesTree p fs result t := by
  rw [removeTree] at h
  rcases run_bind_locateM_cases h with ⟨rfl, failure, rfl, hfails⟩ | ⟨hfault, place, hl, hrest⟩
  · exact .failed hfails
  · rw [run_bind, run_get] at hrest
    dsimp only at hrest
    split at hrest
    · cases hrest
      exact .failed (.system _)
    · next hd =>
      rw [run_bind, run_set] at hrest
      exact .cleared hfault hl hd (removes_of_run hrest)
    · cases hrest
      exact .failed (.system _)
    · cases hrest
      exact .failed (.system _)

/-! ## Renaming -/

/-- What renaming comes to. -/
inductive Renames (source target : Path) (fs : FileSystem) : Except FileFailure Unit → FileSystem → Prop
  | failed {failure : FileFailure} (h : Fails [source.text, target.text] failure) :
      Renames source target fs (.error failure) fs
  /-- Both paths lead to one place. -/
  | same {place : Location} (hfault : PathFault.ofText? source.text = none)
      (hfault' : PathFault.ofText? target.text = none) (hsrc : fs.locate .keep source = .ok place)
      (hdst : fs.locate .keep target = .ok place) : Renames source target fs (.ok ()) fs
  /-- What stands at one place takes the other. -/
  | moved {src dst : Location} {entry : Entry} (hfault : PathFault.ofText? source.text = none)
      (hfault' : PathFault.ofText? target.text = none) (hsrc : fs.locate .keep source = .ok src)
      (hdst : fs.locate .keep target = .ok dst) (hname : isProperlyNamed source) (hname' : isProperlyNamed target)
      (hentry : fs.get? src = some entry) (hplace : fs.replaceable entry dst = .ok ()) (hin : ¬src <+: dst) :
      Renames source target fs (.ok ()) ((fs.remove dst).transplant src dst)

/-- A rename is done in one of these ways. -/
theorem renames_of_run {source target : Path} (h : (rename source target).run fs = (result, t)) :
    Renames source target fs result t := by
  -- one check after the other; each that fails changes nothing
  rw [rename, run_bind, run_requirePath] at h
  cases hfault : PathFault.ofText? source.text with
  | some fault =>
    rw [hfault] at h
    cases h
    exact .failed (.unnameable (by simp) hfault)
  | none =>
    rw [hfault] at h
    dsimp only at h
    rw [run_bind, run_requirePath] at h
    cases hfault' : PathFault.ofText? target.text with
    | some fault =>
      rw [hfault'] at h
      cases h
      exact .failed (.unnameable (by simp) hfault')
    | none =>
      rw [hfault'] at h
      dsimp only at h
      rw [run_bind, run_get] at h
      dsimp only at h
      split at h
      · cases h
        exact .failed (.system _)
      · cases h
        exact .failed (.system _)
      · next src dst hsrc hdst =>
        split at h
        · cases h
          exact .failed (.system _)
        · next hnamed =>
          have hboth : isProperlyNamed source = true ∧ isProperlyNamed target = true := by simpa using hnamed
          split at h
          · cases h
            exact .failed (.system _)
          · next entry hentry =>
            split at h
            · next hsame =>
              cases h
              obtain rfl := eq_of_beq hsame
              exact .same hfault hfault' hsrc hdst
            · split at h
              · cases h
                exact .failed (.system _)
              · next hin =>
                rw [within_iff_isPrefix] at hin
                split at h
                · cases h
                  exact .failed (.system _)
                · next hplace =>
                  cases h
                  exact .moved hfault hfault' hsrc hdst hboth.1 hboth.2 hentry hplace hin

/-! ## Moving -/

/-- What moving a directory by copying it comes to: a copy is made at a free place, and the directory is removed. -/
inductive MovesByCopy (source target : Path) (fs : FileSystem) : Except FileFailure Unit → FileSystem → Prop
  | failed {failure : FileFailure} (h : Fails [source.text, target.text] failure) :
      MovesByCopy source target fs (.error failure) fs
  | copied {src dst : Location} {result : Except FileFailure Unit} {t : FileSystem}
      (hfault : PathFault.ofText? source.text = none) (hsrc : fs.locate .follow source = .ok src)
      (hfault' : PathFault.ofText? target.text = none) (hdst : fs.locate .keep target = .ok dst)
      (hfree : fs.get? dst = none)
      (hremoves : RemovesTree source
        ((copyEntries (fs.entries.length + 1) src dst (fs.children src)).run (fs.put dst .directory)).2 result t) :
      MovesByCopy source target fs result t

/-- A directory is moved by copying it in one of these ways. -/
theorem movesByCopy_of_run {source target : Path} (ht : target.Written)
    (h : (moveByCopy source target).run fs = (result, t)) : MovesByCopy source target fs result t := by
  rw [moveByCopy] at h
  rcases run_bind_locateM_cases h with ⟨rfl, failure, rfl, hfails⟩ | ⟨hfault, src, hsrc, hrest⟩
  · exact .failed (hfails.mono (by simp))
  rw [run_bind, run_get] at hrest
  dsimp only at hrest
  rcases hmade : (makeDirectory target).run fs with ⟨failure | ⟨⟩, u⟩
  · rw [run_bind_of_error hmade] at hrest
    cases hrest
    rw [makeDirectory, run_makeDirectoryAt] at hmade
    split at hmade
    · next fault _ hfault' =>
      cases hmade
      exact .failed (.unnameable (by simp) hfault')
    · cases hmade
      exact .failed (.system _)
    · split at hmade
      · cases hmade
        exact .failed (.system _)
      · cases hmade
  · rw [run_bind_of_ok hmade] at hrest
    obtain ⟨hfault', dst, hdst, hfree, rfl⟩ := run_makeDirectoryAt_ok_iff.1 hmade
    rw [locateText_text _ _ ht] at hdst
    -- the directory that was made is where the target leads now
    obtain ⟨hsame, -, -⟩ := locate_put_directory hdst hfree
    rw [run_bind_of_ok (run_locateM_ok_iff.2 ⟨hfault', hsame, rfl⟩)] at hrest
    exact .copied hfault hsrc hfault' hdst hfree (removesTree_of_run hrest)

/-- What moving to a path comes to. -/
inductive MovesTo (source target : Path) (fs : FileSystem) : Except FileFailure Unit → FileSystem → Prop
  | renamed {t : FileSystem} (h : Renames source target fs (.ok ()) t) : MovesTo source target fs (.ok ()) t
  | failed {failure : FileFailure} (h : Fails [source.text, target.text] failure) :
      MovesTo source target fs (.error failure) fs
  /-- What cannot be renamed is copied, if it is a directory. -/
  | copied {result : Except FileFailure Unit} {t : FileSystem} {e : SystemError}
      (hrename : (rename source target).run fs = (.error (.system e), fs))
      (hshows : fs.showsDirectory source.text = true) (h : MovesByCopy source target fs result t) :
      MovesTo source target fs result t

/-- A move to a path is done in one of these ways. -/
theorem movesTo_of_run {source wanted target : Path} (ht : target.Written)
    (h : (moveTo source wanted target).run fs = (result, t)) : MovesTo source target fs result t := by
  rw [moveTo, run_orElse] at h
  rcases hrename : (rename source target).run fs with ⟨failure | ⟨⟩, u⟩
  · rw [hrename] at h
    cases renames_of_run hrename with
    | failed hfails =>
      cases hfails with
      | unnameable hs hfault =>
        cases h
        exact .failed (.unnameable hs hfault)
      | system e =>
        -- only when the source is a directory does the error of the rename lead to a copy
        dsimp only at h
        rw [run_bind, run_get] at h
        dsimp only at h
        split at h
        · cases h
          exact .failed (.system _)
        · split at h
          · next hshows =>
            split at h
            · cases h
              exact .failed (.system _)
            · exact .copied hrename hshows (movesByCopy_of_run ht h)
          · rcases run_bind_locateM_cases h with ⟨rfl, failure, rfl, hfails⟩ | ⟨-, place, -, hrest⟩
            · exact .failed (hfails.mono (by simp))
            · split at hrest
              · cases hrest
                exact .failed (.system _)
              · cases hrest
                exact .failed (.system _)
  · rw [hrename] at h
    cases h
    exact .renamed (renames_of_run hrename)

/-- What moving comes to. -/
inductive Moves (source target : Path) (fs : FileSystem) : Except FileFailure Unit → FileSystem → Prop
  /-- No directory stands where the target leads. -/
  | there {result : Except FileFailure Unit} {t : FileSystem} (hshows : fs.showsDirectory target.text = false)
      (h : MovesTo source target fs result t) : Moves source target fs result t
  /-- Both paths lead to one directory. -/
  | same {result : Except FileFailure Unit} {t : FileSystem} (hshows : fs.showsDirectory target.text = true)
      (h : Renames source target fs result t) : Moves source target fs result t
  /-- Something stands in the directory already under the name. -/
  | taken {e : SystemError} (hshows : fs.showsDirectory target.text = true) :
      Moves source target fs (.error (.system e)) fs
  /-- What is moved goes into the directory. -/
  | into {result : Except FileFailure Unit} {t : FileSystem} (hshows : fs.showsDirectory target.text = true)
      (h : MovesTo source (target.child source.name) fs result t) : Moves source target fs result t

/-- A move is done in one of these ways. -/
theorem moves_of_run {source target : Path} (ht : target.Written) (h : (move source target).run fs = (result, t)) :
    Moves source target fs result t := by
  rw [move, run_bind, run_get] at h
  dsimp only at h
  split at h
  · next hshows => exact .there (by simpa using hshows) (movesTo_of_run ht h)
  · next hshows =>
    have hshows : fs.showsDirectory target.text = true := by simpa using hshows
    split at h
    · exact .same hshows (renames_of_run h)
    · split at h
      · cases h
        exact .taken hshows
      · exact .into hshows (movesTo_of_run (ht.child source.name) h)

end ProviderBindings.FileSystem
