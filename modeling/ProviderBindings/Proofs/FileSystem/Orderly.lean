import ProviderBindings.Proofs.FileSystem.Grounding

/-!
# Operations that fail with errors of the operating system

An operation is orderly when it keeps a tree grounded, however it ends, and fails with nothing but errors of
the operating system. Each operation on paths that can be said is shown to be orderly once, from making a
directory to moving one by copying it; what is put together from orderly operations is orderly.
-/

namespace ProviderBindings.FileSystem

variable {fs t : FileSystem} {α β : Type}

/-- Whether an operation came to a grounded tree, and failed only with an error of the operating system. -/
structure Settled (outcome : Except FileFailure α × FileSystem) : Prop where
  grounded : outcome.2.Grounded
  system : ∀ failure, outcome.1 = .error failure → ∃ e, failure = .system e

/-- Whether an operation settles in every grounded tree. -/
def Orderly (work : FileAction α) : Prop :=
  ∀ fs : FileSystem, fs.Grounded → Settled (work.run fs)

/-- A value settles in a grounded tree. -/
theorem settled_ok (h : fs.Grounded) (a : α) : Settled (.ok a, fs) :=
  ⟨h, fun _ he => nomatch he⟩

/-- An error of the operating system settles in a grounded tree. -/
theorem settled_error (h : fs.Grounded) (e : SystemError) :
    @Settled α (.error (.system e), fs) :=
  ⟨h, fun _ he => ⟨e, (Except.error.inj he).symm⟩⟩

/-- What fails about texts that are all paths settles in a grounded tree. -/
theorem settled_failed (h : fs.Grounded) {texts : List String} {failure : FileFailure}
    (hfails : Fails texts failure) (hsaid : ∀ s ∈ texts, PathFault.ofText? s = none) :
    @Settled α (.error failure, fs) := by
  obtain ⟨e, rfl⟩ := hfails.exists_system hsaid
  exact settled_error h e

/-- To give a value is orderly. -/
theorem orderly_pure (a : α) : Orderly (pure a : FileAction α) :=
  fun _ h => settled_ok h a

/-- To fail with an error of the operating system is orderly. -/
theorem orderly_failWith (e : SystemError) : Orderly (failWith e : FileAction α) :=
  fun _ h => settled_error h e

/-- A sequence of orderly operations is orderly. -/
theorem Orderly.bind {x : FileAction α} {f : α → FileAction β} (hx : Orderly x)
    (hf : ∀ a, Orderly (f a)) : Orderly (x >>= f) := by
  intro fs h
  have hfirst : Settled (x.run fs) := hx fs h
  rw [run_bind]
  rcases hrun : x.run fs with ⟨failure | a, t⟩
  · rw [hrun] at hfirst
    exact ⟨hfirst.grounded, fun other he => hfirst.system other (congrArg _ (Except.error.inj he))⟩
  · rw [hrun] at hfirst
    exact hf a t hfirst.grounded

/-- An operation with another for its failure is orderly when both are. -/
theorem Orderly.orElse {x : FileAction α} {other : SystemError → FileAction α} (hx : Orderly x)
    (ho : ∀ e, Orderly (other e)) : Orderly (FileSystem.orElse x other) := by
  intro fs h
  have hfirst : Settled (x.run fs) := hx fs h
  rw [run_orElse]
  rcases hrun : x.run fs with ⟨failure | a, t⟩
  · rw [hrun] at hfirst
    obtain ⟨e, rfl⟩ := hfirst.system failure rfl
    exact ho e t hfirst.grounded
  · rwa [hrun] at hfirst

/-- Orderly operations done one after another are orderly. -/
theorem Orderly.mapM {f : α → FileAction β} {as : List α} (h : ∀ a ∈ as, Orderly (f a)) :
    Orderly (as.mapM f) := by
  induction as with
  | nil => exact orderly_pure []
  | cons a rest ih =>
    rw [List.mapM_cons]
    refine (h a (by simp)).bind fun b => ?_
    exact (ih fun c hc => h c (List.mem_cons_of_mem _ hc)).bind fun bs => orderly_pure (b :: bs)

/-- A look at the tree is orderly. -/
theorem orderly_look (view : FileSystem → Except SystemError α) : Orderly (look view) := by
  intro fs h
  rw [run_look]
  cases view fs with
  | ok a => exact settled_ok h a
  | error e => exact settled_error h e

/-! ## Making and writing -/

/-- To make a directory is orderly. -/
theorem orderly_makeDirectoryAt {s : String} (hs : PathFault.ofText? s = none) :
    Orderly (makeDirectoryAt s) := by
  intro fs h
  rw [run_makeDirectoryAt, hs]
  cases fs.locateText .keep s with
  | error e => exact settled_error h _
  | ok place =>
    dsimp only
    split
    · exact settled_error h _
    · next hfree =>
      refine settled_ok (h.put (h.not_isPrefix ?_) (by simp)) ()
      intro hd
      simp [hd] at hfree

/-- To make a directory unless it is there is orderly. -/
theorem orderly_makeDirectoryIfMissing {p : Path} (hp : p.Sayable) :
    Orderly (makeDirectoryIfMissing p) := by
  refine (orderly_makeDirectoryAt hp.text).orElse fun e => ?_
  split
  · exact orderly_failWith e
  · refine (orderly_look _).bind fun there => ?_
    split
    · exact orderly_pure ()
    · exact orderly_failWith e

/-- To make a directory with its parents is orderly. -/
theorem orderly_makeDirectories {p : Path} (hp : p.Sayable) : Orderly (makeDirectories p) := by
  induction p using Path.parent_induction with
  | step p ih =>
    rw [makeDirectories]
    refine (orderly_makeDirectoryIfMissing hp).orElse fun e => ?_
    split
    · next hmissing => exact (ih hmissing.2 hp.parent).bind fun _ => orderly_makeDirectoryIfMissing hp
    · exact orderly_failWith e

/-- To write a file is orderly. -/
theorem orderly_writeText {p : Path} (hp : p.Sayable) (s : String) : Orderly (writeText p s) := by
  intro fs h
  rcases hrun : (writeText p s).run fs with ⟨result, t⟩
  rw [writeText] at hrun
  rcases run_bind_locateM_cases hrun with ⟨rfl, failure, rfl, hfails⟩ | ⟨-, place, -, hrest⟩
  · exact settled_failed h hfails (by simpa using hp.text)
  · rw [run_bind, run_get] at hrest
    dsimp only at hrest
    split at hrest
    · cases hrest
      exact settled_error h _
    · next hfile =>
      cases hrest
      refine settled_ok (h.put (h.not_isPrefix ?_) (by simp)) ()
      rw [hfile]
      simp
    · next hplain _ =>
      cases hrest
      exact settled_ok (h.put (h.not_isPrefix hplain) (by simp)) ()

/-! ## Removing -/

/-- To remove a file or a link is orderly. -/
theorem orderly_unlink {p : Path} (hp : p.Sayable) : Orderly (unlink p) := by
  intro fs h
  rcases hrun : (unlink p).run fs with ⟨result, t⟩
  cases unlinks_of_run hrun with
  | failed hfails => exact settled_failed h hfails (by simpa using hp.text)
  | removed => exact settled_ok (h.remove _) ()

/-- Removing an empty directory settles. -/
theorem Removes.settled {p : Path} (hp : p.Sayable) {result : Except FileFailure Unit}
    (h : Removes p fs result t) (hg : fs.Grounded) : Settled (result, t) := by
  cases h with
  | failed hfails => exact settled_failed hg hfails (by simpa using hp.text)
  | removed => exact settled_ok (hg.remove _) ()

/-- Removing a directory with what is below it settles. -/
theorem RemovesTree.settled {p : Path} (hp : p.Sayable) {result : Except FileFailure Unit}
    (h : RemovesTree p fs result t) (hg : fs.Grounded) : Settled (result, t) := by
  cases h with
  | failed hfails => exact settled_failed hg hfails (by simpa using hp.text)
  | cleared _ _ _ hremoves => exact hremoves.settled hp (hg.clear _)

/-- To remove a directory with what is below it is orderly. -/
theorem orderly_removeTree {p : Path} (hp : p.Sayable) : Orderly (removeTree p) := by
  intro fs h
  rcases hrun : (removeTree p).run fs with ⟨result, t⟩
  exact (removesTree_of_run hrun).settled hp h

/-! ## Moving -/

/-- A path whose last name is one leads, with a link there kept, to a location with a name. -/
theorem not_isNameless_of_locate_keep {p : Path} (hp : p.Written) (hnamed : isProperlyNamed p)
    {place : Location} (hl : fs.locate .keep p = .ok place) : ¬isNameless place := by
  obtain ⟨-, links, -, hlead⟩ := locate_eq_ok_iff.1 hl
  simp only [isProperlyNamed, Path.name, Bool.and_eq_true, Bool.not_eq_true', bne_iff_ne, ne_eq,
    List.isEmpty_eq_false_iff] at hnamed
  obtain ⟨hne, hup⟩ := hnamed
  rw [List.getLastD_eq_getLast?, List.getLast?_eq_some_getLast hne] at hup
  have hname : Path.IsName (p.names.getLast hne) := hp _ (List.getLast_mem hne)
  rw [← List.dropLast_append_getLast hne] at hlead
  obtain ⟨first, second, middle, -, -, hlast⟩ := hlead.split fun h => absurd h (by simp)
  rw [hlast.eq_concat_of_keep (by simp [isIdle, hname.1, hname.2.1]) hup]
  simp [isNameless, hname.1]

/-- Renaming to a path from the root settles. -/
theorem Renames.settled {source target : Path} (hs : source.Sayable) (ht : target.Sayable)
    (hroot : target.isAbsolute) {result : Except FileFailure Unit} (h : Renames source target fs result t)
    (hg : fs.Grounded) : Settled (result, t) := by
  cases h with
  | failed hfails => exact settled_failed hg hfails (by simpa using ⟨hs.text, ht.text⟩)
  | same => exact settled_ok hg ()
  | @moved src dst entry _ _ hsrc hdst hname _ _ _ hin =>
    obtain ⟨hup, hfault⟩ := hg.locate ht hdst
    have hfree : ∀ l, dst <+: l → ¬isNameless l → (fs.remove dst).get? l = none :=
      fun l hle hl => get?_remove_of_isPrefix hl hle
    have hway : (fs.remove dst).Rooted dst.dropLast := by
      intro l hl
      by_cases hnil : dst = []
      · subst hnil
        exact rooted_nil _ hl
      · rw [get?_remove_of_not_isPrefix fun hle => not_isPrefix_dropLast hnil (hle.trans hl)]
        exact hup hl
    exact settled_ok ((hg.remove dst).transplant (not_isNameless_of_locate_keep hs.written hname hsrc) hfree hway
      (hg.proper_locate ht.written (.inl hroot) hdst) hfault hin) ()

/-- A tree is still grounded after entries were copied to places at or below one that is not on the way to the
working directory. -/
theorem grounded_copyEntries {top : Location} (depth : Nat) {source target : Location}
    (htarget : top <+: target) {below : List (Location × Entry)}
    (hbelow : ∀ {location text}, (location, Entry.link text) ∈ below → PathFault.ofText? text = none)
    (h : fs.Grounded) (hout : ¬top <+: fs.workingDirectory) :
    (((copyEntries depth source target below).run fs).2).Grounded ∧
      ((copyEntries depth source target below).run fs).2.workingDirectory = fs.workingDirectory := by
  -- on the depth, and for each depth on the entries
  induction depth generalizing source target below fs with
  | zero => exact ⟨h, rfl⟩
  | succ depth ihd =>
    induction below generalizing fs with
    | nil => exact ⟨h, rfl⟩
    | cons first rest ih =>
      obtain ⟨location, entry⟩ := first
      have hcopy : top <+: target ++ location.drop source.length :=
        htarget.trans (List.prefix_append _ _)
      have hput : (fs.put (target ++ location.drop source.length) entry).Grounded :=
        h.put (fun hp => hout (hcopy.trans hp)) fun text he => @hbelow location text (by rw [he]; simp)
      have hinside : ∀ {place text}, (place, Entry.link text) ∈ fs.children location →
          PathFault.ofText? text = none := fun hmem => h.links (List.mem_of_mem_filter hmem)
      obtain ⟨hdeep, hcwd⟩ := ihd hcopy hinside hput hout
      obtain ⟨hlast, hcwd'⟩ := ih (fun hmem => hbelow (List.mem_cons_of_mem _ hmem)) hdeep
        (by rw [hcwd]; exact hout)
      exact ⟨hlast, hcwd'.trans hcwd⟩

/-- Moving a directory by copying it settles. -/
theorem MovesByCopy.settled {source target : Path} (hs : source.Sayable) (ht : target.Sayable)
    {result : Except FileFailure Unit} (h : MovesByCopy source target fs result t) (hg : fs.Grounded) :
    Settled (result, t) := by
  cases h with
  | failed hfails => exact settled_failed hg hfails (by simpa using ⟨hs.text, ht.text⟩)
  | @copied src dst _ _ _ _ _ _ hfree hremoves =>
    -- the place of the copy is new, so it is not on the way to the working directory
    have hout : ¬dst <+: fs.workingDirectory := hg.not_isPrefix (by rw [hfree]; simp)
    have hput : (fs.put dst .directory).Grounded := hg.put hout (by simp)
    refine hremoves.settled hs (grounded_copyEntries _ (List.prefix_refl dst) (fun hmem => ?_) hput hout).1
    exact hg.links (List.mem_of_mem_filter hmem)

/-- Moving to a path from the root settles. -/
theorem MovesTo.settled {source target : Path} (hs : source.Sayable) (ht : target.Sayable)
    (hroot : target.isAbsolute) {result : Except FileFailure Unit} (h : MovesTo source target fs result t)
    (hg : fs.Grounded) : Settled (result, t) := by
  cases h with
  | renamed hrenames => exact hrenames.settled hs ht hroot hg
  | failed hfails => exact settled_failed hg hfails (by simpa using ⟨hs.text, ht.text⟩)
  | copied _ _ hcopies => exact hcopies.settled hs ht hg

/-- A path from the root with a text after it is one from the root. -/
theorem isAbsolute_child {p : Path} (h : p.isAbsolute) (s : String) : (p.child s).isAbsolute := by
  unfold Path.child Path.join
  split
  · next hs => exact hs
  · exact h

/-- To move to a path from the root, or into the directory there, is orderly. -/
theorem orderly_move {source target : Path} (hs : source.Sayable) (ht : target.Sayable)
    (hroot : target.isAbsolute) : Orderly (move source target) := by
  intro fs h
  rcases hrun : (move source target).run fs with ⟨result, t⟩
  cases moves_of_run ht.written hrun with
  | there _ hto => exact hto.settled hs ht hroot h
  | same _ hrenames => exact hrenames.settled hs ht hroot h
  | taken => exact settled_error h _
  | into _ hto => exact hto.settled hs (ht.child hs.faultless_name) (isAbsolute_child hroot _) h

end ProviderBindings.FileSystem
