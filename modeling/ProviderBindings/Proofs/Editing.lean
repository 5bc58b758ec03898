import ProviderBindings.Proofs.Reordering

/-!
# Emitters in use

An emitter is changed in place: what an operation did before it failed stays done, and the next operation finds it. Here
the operations are taken in that way, one change after another (`Emitter.Edit`), in any order, with any arguments, and
with saving among them (`Emitter.Operation`). On an emitter that was new at first the order of the changes cannot be
told: an operation that fails has changed nothing, and one that succeeds does what it does to emitters as a whole
(`Emitter.performAll_new`). What carries this is that a block is open, or a line waits, only while a file is open
(`Emitter.Tidy`).
-/

namespace ProviderBindings

namespace Emitter

/-! ## Operations in place -/

/-- A computation that changes an emitter in place. What it did before it failed stays done. -/
abbrev Edit := ExceptT EmitterFault (StateM Emitter)

namespace Edit

/-- Start a file. -/
def openFile (path : String) : Edit Unit := do
  match (← get).current with
  | some current => throw (.stillOpen path current)
  | none =>
    modify fun e => { e with current := some path }
    modify fun e => { e with lines := [] }
    modify fun e => { e with depth := 0 }

/-- Put a whole file into the collection. -/
def addFile (path text : String) : Edit Unit :=
  modify fun e => { e with files := Assoc.set path text e.files }

/-- Finish the open file. -/
def closeFile (path : String) : Edit Unit := do
  let e ← get
  if e.current != some path then throw (.notOpen path e.current)
  else if e.depth != 0 then throw (.openBlocks path e.depth)
  else
    addFile path (Text.unlines e.lines)
    modify fun e => { e with current := none }
    modify fun e => { e with lines := [] }

/-- Write a line. -/
def line (text : String) : Edit Unit := do
  match (← get).current with
  | none => throw .noOpenFile
  | some _ => modify fun e => { e with lines := e.lines ++ [indented e.indentation e.depth text] }

/-- Write the head of a block, then go deeper. -/
def openBlock (text : String) : Edit Unit := do
  line (text ++ " \x7b")
  modify fun e => { e with depth := e.depth + 1 }

/-- Come out of the innermost block, then write its closing text. -/
def closeBlock (text : String) : Edit Unit := do
  if (← get).depth = 0 then throw .noOpenBlock
  else
    modify fun e => { e with depth := e.depth - 1 }
    line text

/-- An edit as a computation that fails for any reason. -/
def emission (edit : Edit Unit) : Emission Unit :=
  fun e =>
    match edit.run e with
    | (.ok (), e') => (.ok (), e')
    | (.error fault, e') => (.error (.emitter fault), e')

end Edit

/-- What an emitter is told to do. -/
inductive Operation where
  | openFile (path : String)
  | closeFile (path : String)
  | line (text : String)
  | openBlock (text : String)
  | closeBlock (text : String)
  | addFile (path text : String)
  | save (directory : Path)

/-- An emitter with the session it is used in. -/
abbrev InUse := Emitter × Session

/-- Write to an emitter in use. -/
def useEmission (work : Emission Unit) : ExceptT Failure (StateM InUse) Unit :=
  fun u => ((work.run u.1).1, (work.run u.1).2, u.2)

/-- Save an emitter in use. -/
def useSave (directory : Path) : ExceptT Failure (StateM InUse) Unit :=
  fun u =>
    match (Getter.save u.1 directory).run u.2 with
    | (.ok _, s') => (.ok (), u.1, s')
    | (.error failure, s') => (.error failure, u.1, s')

namespace Operation

/-- Do an operation, one change after another. -/
def perform : Operation → ExceptT Failure (StateM InUse) Unit
  | openFile path => useEmission (Edit.openFile path).emission
  | closeFile path => useEmission (Edit.closeFile path).emission
  | line text => useEmission (Edit.line text).emission
  | openBlock text => useEmission (Edit.openBlock text).emission
  | closeBlock text => useEmission (Edit.closeBlock text).emission
  | addFile path text => useEmission (Edit.addFile path text).emission
  | save directory => useSave directory

/-- Do an operation as it is done to emitters as a whole. -/
def performWhole : Operation → ExceptT Failure (StateM InUse) Unit
  | openFile path => useEmission (Emission.step (·.openFile path))
  | closeFile path => useEmission (Emission.step (·.closeFile path))
  | line text => useEmission (Emission.step (·.line text))
  | openBlock text => useEmission (Emission.step (·.openBlock text))
  | closeBlock text => useEmission (Emission.step (·.closeBlock text))
  | addFile path text => useEmission (Emission.step fun e => .ok (e.addFile path text))
  | save directory => useSave directory

/-- The file that an operation completes on an emitter, if it succeeds. -/
def completed (e : Emitter) : Operation → List (String × String)
  | closeFile path => [(path, Text.unlines e.lines)]
  | addFile path text => [(path, text)]
  | _ => []

end Operation

/-- Do operations one after another, whether they fail or not. -/
def performAll : List Operation → InUse → InUse
  | [], u => u
  | operation :: rest, u => performAll rest (operation.perform.run u).2

/-- The files that operations complete, one after another. -/
def completions : List Operation → InUse → List (String × String)
  | [], _ => []
  | operation :: rest, u =>
    match operation.perform.run u with
    | (.ok (), u') => operation.completed u.1 ++ completions rest u'
    | (.error _, u') => completions rest u'

/-! ## One operation -/

/-- Whether a block is open, or a line waits, only while a file is open. -/
def Tidy (e : Emitter) : Prop :=
  e.current = none → e.depth = 0 ∧ e.lines = []

variable {e e' : Emitter} {path text : String}

/-- An operation on emitters as a whole succeeds, or leaves the emitter as it was. -/
theorem run_step (operation : Emitter → Except EmitterFault Emitter) (e : Emitter) :
    (∃ fault, operation e = .error fault ∧ (Emission.step operation).run e = (.error (.emitter fault), e)) ∨
      ∃ e', operation e = .ok e' ∧ (Emission.step operation).run e = (.ok (), e') := by
  show (∃ fault, _ ∧ Emission.step operation e = _) ∨ ∃ e', _ ∧ Emission.step operation e = _
  unfold Emission.step
  cases operation e with
  | error fault => exact .inl ⟨fault, rfl, rfl⟩
  | ok e' => exact .inr ⟨e', rfl, rfl⟩

/-! ### Which of them can be told from the operation on the whole -/

theorem Edit.run_openFile (path : String) (e : Emitter) :
    (Edit.openFile path).emission.run e = (Emission.step (·.openFile path)).run e := by
  obtain ⟨indentation, files, current, lines, depth⟩ := e
  cases current <;> rfl

theorem Edit.run_addFile (path text : String) (e : Emitter) :
    (Edit.addFile path text).emission.run e = (Emission.step fun e => .ok (e.addFile path text)).run e :=
  rfl

theorem Edit.run_line (text : String) (e : Emitter) :
    (Edit.line text).emission.run e = (Emission.step (·.line text)).run e := by
  obtain ⟨indentation, files, current, lines, depth⟩ := e
  cases current <;> rfl

theorem Edit.run_openBlock (text : String) (e : Emitter) :
    (Edit.openBlock text).emission.run e = (Emission.step (·.openBlock text)).run e := by
  obtain ⟨indentation, files, current, lines, depth⟩ := e
  cases current <;> rfl

theorem Edit.run_closeFile (path : String) (e : Emitter) :
    (Edit.closeFile path).emission.run e = (Emission.step (·.closeFile path)).run e := by
  show Edit.emission _ e = Emission.step _ e
  unfold Edit.emission Edit.closeFile Emission.step Emitter.closeFile
  rw [run_bind, run_get]
  by_cases hopen : e.current != some path
  · simp only [if_pos hopen, run_throw]
  · by_cases hdepth : e.depth != 0
    · simp only [if_neg hopen, if_pos hdepth, run_throw]
    · simp only [if_neg hopen, if_neg hdepth]
      rfl

/-- The end of a block can be told from the operation on the whole where a block is open and no file is. -/
theorem Edit.run_closeBlock (text : String) (h : e.Tidy) :
    (Edit.closeBlock text).emission.run e = (Emission.step (·.closeBlock text)).run e := by
  obtain ⟨indentation, files, current, lines, depth⟩ := e
  cases depth with
  | zero => rfl
  | succ depth =>
    cases current with
    | none => cases (h rfl).1
    | some path => rfl

-- with a block open and no file, the block would be left although the end of it fails
example : (Edit.closeBlock "").emission.run { depth := 1 } = (.error (.emitter .noOpenFile), { depth := 0 }) := rfl

/-! ### What one operation comes to -/

/-- An emitter on which a file is open is tidy. -/
theorem tidy_of_open (h : e.current ≠ none) : e.Tidy := fun hnone => absurd hnone h

theorem tidy_of_openFile (h : e.openFile path = .ok e') : e'.Tidy ∧ e'.files = e.files := by
  unfold openFile at h
  split at h
  · cases h
  · cases h
    exact ⟨tidy_of_open (by simp), rfl⟩

theorem tidy_of_closeFile (h : e.closeFile path = .ok e') :
    e'.Tidy ∧ e'.files = Assoc.set path (Text.unlines e.lines) e.files := by
  unfold closeFile at h
  split at h
  · cases h
  split at h
  · cases h
  · next hdepth =>
    cases h
    have hzero : e.depth = 0 := by simpa using hdepth
    exact ⟨fun _ => ⟨hzero, rfl⟩, rfl⟩

/-- A line that is written leaves the file open. -/
theorem open_of_line (h : e.line text = .ok e') : e'.current ≠ none ∧ e'.files = e.files := by
  unfold line at h
  split at h
  · cases h
  · next hopen =>
    cases h
    exact ⟨by simp [hopen], rfl⟩

theorem tidy_of_line (h : e.line text = .ok e') : e'.Tidy ∧ e'.files = e.files :=
  (open_of_line h).imp_left tidy_of_open

theorem tidy_of_openBlock (h : e.openBlock text = .ok e') : e'.Tidy ∧ e'.files = e.files := by
  unfold openBlock at h
  cases hline : e.line (text ++ " \x7b") with
  | error fault =>
    rw [hline] at h
    cases h
  | ok between =>
    rw [hline] at h
    cases h
    obtain ⟨hopen, hfiles⟩ := open_of_line hline
    exact ⟨tidy_of_open hopen, hfiles⟩

theorem tidy_of_closeBlock (h : e.closeBlock text = .ok e') : e'.Tidy ∧ e'.files = e.files := by
  unfold closeBlock at h
  split at h
  · cases h
  · obtain ⟨hopen, hfiles⟩ := open_of_line h
    exact ⟨tidy_of_open hopen, hfiles⟩

/-- Files set in a collection one after another. -/
def setAll (files completed : List (String × String)) : List (String × String) :=
  completed.foldl (fun files file => Assoc.set file.1 file.2 files) files

variable {u u' : InUse}

/-- What is written in one step to a tidy emitter is written, or fails and changes nothing. -/
theorem run_useEmission_step {operation : Emitter → Except EmitterFault Emitter} {completed : List (String × String)}
    (hop : ∀ e', operation u.1 = .ok e' → e'.Tidy ∧ e'.files = setAll u.1.files completed) :
    (∃ failure u', (useEmission (Emission.step operation)).run u = (.error failure, u') ∧ u'.1 = u.1) ∨
      ∃ u', (useEmission (Emission.step operation)).run u = (.ok (), u') ∧ u'.1.Tidy ∧
        u'.1.files = setAll u.1.files completed := by
  show (∃ failure u', useEmission (Emission.step operation) u = _ ∧ _) ∨
    ∃ u', useEmission (Emission.step operation) u = _ ∧ _
  unfold useEmission
  rcases run_step operation u.1 with ⟨fault, -, hrun⟩ | ⟨e', he, hrun⟩
  · exact .inl ⟨.emitter fault, u, by rw [hrun], rfl⟩
  · exact .inr ⟨(e', u.2), by rw [hrun], hop e' he⟩

/-- On a tidy emitter an operation does what it does to emitters as a whole. -/
theorem Operation.perform_eq_whole (operation : Operation) (h : u.1.Tidy) :
    operation.perform.run u = operation.performWhole.run u := by
  have same {edit whole : Emission Unit} (heq : edit.run u.1 = whole.run u.1) :
      (useEmission edit).run u = (useEmission whole).run u := by
    show useEmission edit u = useEmission whole u
    unfold useEmission
    rw [heq]
  cases operation with
  | openFile path => exact same (Edit.run_openFile path u.1)
  | closeFile path => exact same (Edit.run_closeFile path u.1)
  | line text => exact same (Edit.run_line text u.1)
  | openBlock text => exact same (Edit.run_openBlock text u.1)
  | closeBlock text => exact same (Edit.run_closeBlock text h)
  | addFile path text => exact same (Edit.run_addFile path text u.1)
  | save directory => rfl

/-- An operation on a tidy emitter fails and leaves it as it was, or succeeds, and then the emitter is tidy and holds
the files that were completed. -/
theorem Operation.run_perform (operation : Operation) (h : u.1.Tidy) :
    (∃ failure u', operation.perform.run u = (.error failure, u') ∧ u'.1 = u.1) ∨
      ∃ u', operation.perform.run u = (.ok (), u') ∧ u'.1.Tidy ∧
        u'.1.files = setAll u.1.files (operation.completed u.1) := by
  rw [operation.perform_eq_whole h]
  cases operation with
  | openFile path => exact run_useEmission_step fun e' he => tidy_of_openFile he
  | closeFile path => exact run_useEmission_step fun e' he => tidy_of_closeFile he
  | line text => exact run_useEmission_step fun e' he => tidy_of_line he
  | openBlock text => exact run_useEmission_step fun e' he => tidy_of_openBlock he
  | closeBlock text => exact run_useEmission_step fun e' he => tidy_of_closeBlock he
  | addFile path text =>
    refine run_useEmission_step fun e' he => ?_
    cases he
    exact ⟨h, rfl⟩
  | save directory =>
    show (∃ failure u', useSave directory u = _ ∧ _) ∨ ∃ u', useSave directory u = _ ∧ _
    unfold useSave
    rcases (Getter.save u.1 directory).run u.2 with ⟨failure | paths, s'⟩
    · exact .inl ⟨failure, _, rfl, rfl⟩
    · exact .inr ⟨_, rfl, h, rfl⟩

/-! ## The listing of files -/

/-- Whether files are listed as they were completed: every path once, where it was first completed, with the text it was
last completed with. -/
structure Lists (completed files : List (String × String)) : Prop where
  /-- Every path is listed once. -/
  once : (files.map (·.1)).Nodup
  /-- The paths are in the order in which they were first completed. -/
  order : files.map (·.1) = (completed.map (·.1)).eraseDups
  /-- Every path has the text that it was last completed with. -/
  last : ∀ path text, (path, text) ∈ files ↔ completed.reverse.lookup path = some text

/-- At first nothing is listed. -/
theorem lists_nil : Lists [] [] :=
  ⟨List.nodup_nil, rfl, fun _ _ => by simp⟩

/-- One more file is completed by setting it in the collection. -/
theorem Lists.concat {completed files : List (String × String)} (h : Lists completed files) (path text : String) :
    Lists (completed ++ [(path, text)]) (Assoc.set path text files) := by
  have hnodup : ((Assoc.set path text files).map (·.1)).Nodup := Assoc.nodup_keys_set path text h.once
  refine ⟨hnodup, ?_, fun other value => ?_⟩
  · -- a path that was listed keeps its place, and a new one comes last
    have hlisted : (Assoc.get? path files).isSome ↔ path ∈ completed.map (·.1) := by
      rw [Assoc.isSome_get?, h.order, List.mem_eraseDups]
    rw [Assoc.keys_set, List.map_append, List.eraseDups_append, h.order]
    generalize completed.map (·.1) = keys at hlisted
    by_cases hold : path ∈ keys
    · rw [if_pos (hlisted.2 hold)]
      simp [List.removeAll, hold]
    · rw [if_neg (fun hsome => hold (hlisted.1 hsome))]
      simp [List.removeAll, hold, List.eraseDups_cons]
  · rw [← Assoc.get?_eq_some_iff hnodup, Assoc.get?_set, List.reverse_append, List.reverse_singleton,
      List.singleton_append, List.lookup_cons]
    by_cases hsame : path = other
    · subst hsame
      simp
    · have hother : (other == path) = false := by simpa using fun he => hsame he.symm
      simp only [beq_iff_eq, hsame, if_false, hother]
      rw [Assoc.get?_eq_some_iff h.once, h.last]

/-- Files are listed as they were completed when they were set one after another. -/
theorem Lists.setAll {completed files : List (String × String)} (h : Lists completed files)
    (more : List (String × String)) : Lists (completed ++ more) (setAll files more) := by
  induction more generalizing completed files with
  | nil => simpa [Emitter.setAll] using h
  | cons file rest ih => simpa [Emitter.setAll] using ih (h.concat file.1 file.2)

/-! ## Any operations in any order -/

/-- After any operations a tidy emitter is tidy, and lists the files that were completed. -/
theorem performAll_tidy (operations : List Operation) {u : InUse} {completed : List (String × String)} (h : u.1.Tidy)
    (hlists : Lists completed u.1.files) :
    (performAll operations u).1.Tidy ∧
      Lists (completed ++ completions operations u) (performAll operations u).1.files := by
  induction operations generalizing u completed with
  | nil => simpa [performAll, completions] using ⟨h, hlists⟩
  | cons operation rest ih =>
    rw [performAll, completions]
    rcases operation.run_perform h with ⟨failure, u', hrun, hkept⟩ | ⟨u', hrun, htidy, hfiles⟩
    · rw [hrun]
      exact ih (hkept ▸ h) (hkept ▸ hlists)
    · rw [hrun]
      have hmore := hlists.setAll (operation.completed u.1)
      rw [← hfiles] at hmore
      simpa using ih htidy hmore

/-- **Whatever is done to an emitter, an operation that fails changes nothing.** Take any operations, in any order, on
an emitter that was new. A block is open and a line waits only while a file is open. The files are those that were
completed: every path is listed once, where it was first completed, with the text it was last completed with. Any other
operation that fails now, for whatever reason, leaves the emitter as it is, although it works in place; and it comes to
what it comes to for the emitter as a whole. -/
theorem performAll_new (indentation : Int) (session : Session) (operations : List Operation) :
    let u := performAll operations ({ indentation }, session)
    (u.1.current = none → u.1.depth = 0 ∧ u.1.lines = []) ∧
      Lists (completions operations ({ indentation }, session)) u.1.files ∧
      ∀ operation : Operation,
        (∀ failure u', operation.perform.run u = (.error failure, u') → u'.1 = u.1) ∧
          operation.perform.run u = operation.performWhole.run u := by
  obtain ⟨htidy, hlists⟩ := performAll_tidy operations (u := ({ indentation }, session))
    (fun _ => ⟨rfl, rfl⟩) lists_nil
  refine ⟨htidy, by simpa using hlists, fun operation => ⟨fun failure u' hrun => ?_, operation.perform_eq_whole htidy⟩⟩
  rcases operation.run_perform htidy with ⟨failure', u'', hrun', hkept⟩ | ⟨u'', hrun', -⟩
  · rw [hrun'] at hrun
    cases hrun
    exact hkept
  · rw [hrun'] at hrun
    cases hrun

end Emitter

end ProviderBindings
