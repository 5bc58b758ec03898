import ProviderBindings.Proofs.Ascii
import ProviderBindings.Proofs.Placing
import ProviderBindings.Proofs.Running

/-!
# What is emitted

The names of a request that passes the check for collisions all resolve, to constraints with different
keys (`checkCollisions_ok_iff`), and then the emission for them succeeds whatever the names are. What it
leaves in the emitter is closed, has only files below the directory it is saved to, and ends with the
version index, which lists the qualified names of these constraints and no others (`run_emitBindings`).
-/

namespace ProviderBindings

/-! ## Resolving in a stage -/

/-- A name that resolves does so in its stage. -/
theorem Constraint.resolveStaged_ok_iff {name : String} {c : Constraint} :
    (resolveStaged name : Except Failure Constraint) = .ok c ↔ resolve name = .ok c := by
  unfold resolveStaged
  cases resolve name with
  | error fault => constructor <;> intro h <;> cases h
  | ok other => exact ⟨fun h => by cases h; rfl, fun h => by cases h; rfl⟩

/-- Resolving a name in a stage leaves the state as it is. -/
theorem Constraint.run_resolveStaged {σ : Type} (name : String) (s : σ) :
    (resolveStaged name : ExceptT Failure (StateM σ) Constraint).run s =
      ((resolveStaged name : Except Failure Constraint), s) := by
  unfold resolveStaged
  rw [run_inStage]
  cases resolve name <;> rfl

/-- A name that resolves does so in its stage, whatever the state. -/
theorem Constraint.run_resolveStaged_of_ok {σ : Type} {name : String} {c : Constraint}
    (h : resolve name = .ok c) (s : σ) :
    (resolveStaged name : ExceptT Failure (StateM σ) Constraint).run s = (.ok c, s) := by
  rw [run_resolveStaged, resolveStaged_ok_iff.2 h]

/-! ## Collisions -/

/-- The check goes on with a name that resolves to a new key. -/
theorem checkCollisions_go_cons {language : Language} {kind : TargetKind} {name : String}
    {rest : List String} {c : Constraint} (h : Constraint.resolve name = .ok c)
    (earlier : List (String × String)) :
    checkCollisions.go language kind earlier (name :: rest) =
      match Assoc.get? (outputKey language (c.source kind)) earlier with
      | some other => .error (.generation
          { cause := .resolution (.collision other kind (outputKey language (c.source kind)))
            target := name, stage := "resolve" })
      | none => checkCollisions.go language kind
          (earlier ++ [(outputKey language (c.source kind), name)]) rest := by
  rw [checkCollisions.go, Constraint.resolveStaged_ok_iff.2 h]
  rfl

/-- The check fails about a name that does not resolve. -/
theorem checkCollisions_go_malformed {language : Language} {kind : TargetKind} {name : String}
    {fault : ResolutionFault} (h : Constraint.resolve name = .error fault) (earlier : List (String × String))
    (rest : List String) :
    checkCollisions.go language kind earlier (name :: rest) =
      .error (.generation { cause := .resolution fault, target := name, stage := "resolve" }) := by
  rw [checkCollisions.go]
  unfold Constraint.resolveStaged
  rw [h]
  rfl

/-- Names pass the check after others when they resolve to constraints with new and different keys. -/
theorem checkCollisions_go_ok_iff {language : Language} {kind : TargetKind} {names : List String}
    {earlier : List (String × String)} :
    checkCollisions.go language kind earlier names = .ok () ↔
      ∃ cs : List Constraint, names.map Constraint.resolve = cs.map .ok ∧
        (cs.map fun c => outputKey language (c.source kind)).Nodup ∧
        ∀ c ∈ cs, outputKey language (c.source kind) ∉ earlier.map (·.1) := by
  -- on the names; the keys that came earlier grow by that of each name
  induction names generalizing earlier with
  | nil => exact ⟨fun _ => ⟨[], rfl, List.nodup_nil, by simp⟩, fun _ => rfl⟩
  | cons name rest ih =>
    cases hr : Constraint.resolve name with
    | error fault =>
      rw [checkCollisions_go_malformed hr]
      refine ⟨fun h => (by cases h), ?_⟩
      rintro ⟨cs, hcs, -⟩
      obtain ⟨first, later, -, hfirst, -⟩ := List.map_eq_cons_iff.1 hcs.symm
      cases hfirst.trans hr
    | ok c =>
      rw [checkCollisions_go_cons hr]
      cases hkey : Assoc.get? (outputKey language (c.source kind)) earlier with
      | some other =>
        have hmem : outputKey language (c.source kind) ∈ earlier.map (·.1) :=
          (Assoc.isSome_get? _ _).1 (by simp [hkey])
        refine ⟨fun h => (by cases h), ?_⟩
        rintro ⟨cs, hcs, -, hnew⟩
        obtain ⟨first, later, rfl, hfirst, -⟩ := List.map_eq_cons_iff.1 hcs.symm
        obtain rfl := Except.ok.inj (hfirst.trans hr)
        exact absurd hmem (hnew first (by simp))
      | none =>
        have hfresh : outputKey language (c.source kind) ∉ earlier.map (·.1) := by
          rw [← Assoc.isSome_get?, hkey]
          simp
        dsimp only
        rw [ih]
        constructor
        · rintro ⟨cs, hcs, hnodup, hnew⟩
          refine ⟨c :: cs, by simp [hr, hcs], List.nodup_cons.2 ⟨fun hin => ?_, hnodup⟩,
            List.forall_mem_cons.2 ⟨hfresh, fun d hd hin => hnew d hd (by simp [List.mem_map.1 hin])⟩⟩
          obtain ⟨d, hd, he⟩ := List.mem_map.1 hin
          exact hnew d hd (by simp [he])
        · rintro ⟨cs, hcs, hnodup, hnew⟩
          obtain ⟨first, later, rfl, hfirst, hlater⟩ := List.map_eq_cons_iff.1 hcs.symm
          obtain rfl := Except.ok.inj (hfirst.trans hr)
          obtain ⟨hfirst, hnodup⟩ := List.nodup_cons.1 hnodup
          refine ⟨later, hlater.symm, hnodup, fun d hd hin => ?_⟩
          -- a key that is there comes from earlier names or from this one
          rw [List.map_append, List.mem_append] at hin
          rcases hin with hin | hin
          · exact hnew d (List.mem_cons_of_mem _ hd) hin
          · refine hfirst (List.mem_map.2 ⟨d, hd, ?_⟩)
            simpa using hin

/-- Names pass the check when they resolve to constraints with different keys. -/
theorem checkCollisions_ok_iff {language : Language} {kind : TargetKind} {names : List String} :
    checkCollisions names language kind = .ok () ↔
      ∃ cs : List Constraint, names.map Constraint.resolve = cs.map .ok ∧
        (cs.map fun c => outputKey language (c.source kind)).Nodup := by
  rw [checkCollisions, checkCollisions_go_ok_iff]
  simp

/-- The check after others fails about the first name that does not pass, for a reason of that name. -/
theorem checkCollisions_go_error {language : Language} {kind : TargetKind} {names : List String}
    {earlier : List (String × String)} {failure : Failure}
    (h : checkCollisions.go language kind earlier names = .error failure) :
    ∃ (k : Nat) (name : String) (fault : ResolutionFault), names[k]? = some name ∧
      checkCollisions.go language kind earlier (names.take k) = .ok () ∧
      checkCollisions.go language kind earlier (names.take (k + 1)) = .error failure ∧
      failure = .generation { cause := .resolution fault, target := name, stage := "resolve" } := by
  induction names generalizing earlier with
  | nil => cases h
  | cons name rest ih =>
    cases hr : Constraint.resolve name with
    | error fault =>
      rw [checkCollisions_go_malformed hr] at h
      cases h
      exact ⟨0, name, fault, rfl, rfl, checkCollisions_go_malformed hr earlier [], rfl⟩
    | ok c =>
      rw [checkCollisions_go_cons hr] at h
      cases hkey : Assoc.get? (outputKey language (c.source kind)) earlier with
      | some other =>
        rw [hkey] at h
        cases h
        refine ⟨0, name, _, rfl, rfl, ?_, rfl⟩
        rw [List.take_succ_cons, checkCollisions_go_cons hr, hkey]
      | none =>
        rw [hkey] at h
        -- the fault is in one of the others, after the key of this name joined the earlier ones
        obtain ⟨k, who, fault, hk, hbefore, hfails, hfailure⟩ := ih h
        refine ⟨k + 1, who, fault, hk, ?_, ?_, hfailure⟩
        · rw [List.take_succ_cons, checkCollisions_go_cons hr, hkey]
          exact hbefore
        · rw [List.take_succ_cons, checkCollisions_go_cons hr, hkey]
          exact hfails

/-- The check fails about the first name that does not pass, for a reason of that name. -/
theorem checkCollisions_error {language : Language} {kind : TargetKind} {names : List String}
    {failure : Failure} (h : checkCollisions names language kind = .error failure) :
    ∃ (k : Nat) (name : String) (fault : ResolutionFault), names[k]? = some name ∧
      checkCollisions (names.take k) language kind = .ok () ∧
      checkCollisions (names.take (k + 1)) language kind = .error failure ∧
      failure = .generation { cause := .resolution fault, target := name, stage := "resolve" } :=
  checkCollisions_go_error h

/-! ## Writing one file -/

/-- An operation on the emitter that succeeds. -/
theorem Emission.run_step {operation : Emitter → Except EmitterFault Emitter} {e e' : Emitter}
    (h : operation e = .ok e') : (Emission.step operation).run e = (.ok (), e') := by
  show Emission.step operation e = _
  unfold Emission.step
  rw [h]

/-- An open file takes a line. -/
theorem Emitter.line_of_open {e : Emitter} {path : String} (h : e.current = some path)
    (text : String) :
    e.line text = .ok { e with lines := e.lines ++ [indented e.indentation e.depth text] } := by
  unfold Emitter.line
  rw [h]

/-- A line is written to the open file. -/
theorem Emission.run_line {e : Emitter} {path : String} (h : e.current = some path) (text : String) :
    (Emission.step (·.line text)).run e =
      (.ok (), { e with lines := e.lines ++ [Emitter.indented e.indentation e.depth text] }) :=
  Emission.run_step (e.line_of_open h text)

/-- A file is opened in an emitter that is closed. -/
theorem Emission.run_openFile {e : Emitter} (h : e.current = none) (path : String) :
    (Emission.step (·.openFile path)).run e =
      (.ok (), { e with current := some path, lines := [], depth := 0 }) := by
  refine Emission.run_step ?_
  unfold Emitter.openFile
  rw [h]

/-- The head of a block is written to the open file, and what follows is deeper. -/
theorem Emission.run_openBlock {e : Emitter} {path : String} (h : e.current = some path)
    (text : String) :
    (Emission.step (·.openBlock text)).run e =
      (.ok (), { e with
        lines := e.lines ++ [Emitter.indented e.indentation e.depth (text ++ " \x7b")]
        depth := e.depth + 1 }) := by
  refine Emission.run_step ?_
  unfold Emitter.openBlock
  rw [Emitter.line_of_open h]
  rfl

/-- An open block ends with a line that is less deep. -/
theorem Emission.run_closeBlock {e : Emitter} {path : String} {depth : Nat}
    (h : e.current = some path) (hd : e.depth = depth + 1) (text : String) :
    (Emission.step (·.closeBlock text)).run e =
      (.ok (), { e with
        lines := e.lines ++ [Emitter.indented e.indentation depth text]
        depth }) := by
  refine Emission.run_step ?_
  unfold Emitter.closeBlock
  rw [hd, if_neg (Nat.succ_ne_zero depth)]
  exact Emitter.line_of_open (e := { e with depth }) h text

/-- The open file, all blocks of which have ended, is finished. -/
theorem Emission.run_closeFile {e : Emitter} {path : String} (h : e.current = some path)
    (hd : e.depth = 0) :
    (Emission.step (·.closeFile path)).run e =
      (.ok (), { e.addFile path (Text.unlines e.lines) with current := none, lines := [] }) := by
  refine Emission.run_step ?_
  unfold Emitter.closeFile
  rw [h, hd]
  simp

/-- The lines of the file for a constraint. -/
def Constraint.fileLines (c : Constraint) (indentation : Int) : List String :=
  let outside := Emitter.indented indentation 0
  let inside := Emitter.indented indentation 1
  let constant (name value : String) : String :=
    inside ("public static readonly " ++ name ++ " = " ++ Json.quote value ++ ";")
  [outside ("// generated by bindgen from " ++ Json.quote c.text),
   outside "",
   outside ("export class " ++ className c.name ++ " \x7b"),
   constant "FQN" c.qualifiedName,
   constant "NAME" c.name,
   constant "VERSION" c.versionOrAny,
   outside Emitter.blockEnd]

/-- A line is indented in ASCII. -/
theorem Emitter.inAscii_indented {text : String} (h : InAscii text) (indentation : Int) (depth : Nat) :
    InAscii (indented indentation depth text) := by
  unfold indented
  split
  · exact h
  · refine InAscii.append (fun c hc => ?_) h
    rw [String.toList_ofList] at hc
    rw [List.eq_of_mem_replicate hc]
    decide

/-- The lines of the file for a constraint are in ASCII, whatever the constraint is. -/
theorem Constraint.inAscii_of_mem_fileLines {c : Constraint} {indentation : Int} {line : String}
    (h : line ∈ c.fileLines indentation) : InAscii line := by
  have hconstant {name : String} (hname : InAscii name) (value : String) :
      InAscii ("public static readonly " ++ name ++ " = " ++ Json.quote value ++ ";") :=
    ((((show InAscii _ by decide).append hname).append (by decide)).append (inAscii_quote value)).append (by decide)
  simp only [fileLines, List.mem_cons, List.not_mem_nil, or_false] at h
  rcases h with rfl | rfl | rfl | rfl | rfl | rfl | rfl <;> refine Emitter.inAscii_indented ?_ indentation _
  · exact InAscii.append (by decide) (inAscii_quote _)
  · decide
  · exact (InAscii.append (by decide) (isIdentifier_className _).inAscii).append (by decide)
  · exact hconstant (by decide) _
  · exact hconstant (by decide) _
  · exact hconstant (by decide) _
  · decide

/-- The file for a constraint is in ASCII. -/
theorem Constraint.isAscii_unlines_fileLines (c : Constraint) (indentation : Int) :
    IsAscii (Text.unlines (c.fileLines indentation)) :=
  Text.isAscii_unlines fun _ hline => (inAscii_of_mem_fileLines hline).isAscii

/-- The file for a constraint can be written whenever no other is open. -/
theorem Constraint.run_emit (c : Constraint) (path : String) {e : Emitter} (h : e.current = none) :
    (c.emit path).run e =
      (.ok (), { e with
        files := Assoc.set path (Text.unlines (c.fileLines e.indentation)) e.files
        current := none, lines := [], depth := 0 }) := by
  unfold Constraint.emit
  dsimp only
  rw [run_bind_of_ok (Emission.run_openFile h path),
    run_bind_of_ok (Emission.run_line rfl _), run_bind_of_ok (Emission.run_line rfl _),
    run_bind_of_ok (Emission.run_openBlock rfl _),
    run_bind_of_ok (Emission.run_line rfl _), run_bind_of_ok (Emission.run_line rfl _),
    run_bind_of_ok (Emission.run_line rfl _),
    run_bind_of_ok (Emission.run_closeBlock rfl rfl _), Emission.run_closeFile rfl rfl]
  rfl

/-! ## The emission for a request -/

/-- The versions of constraints by qualified name. -/
def versionTable (cs : List Constraint) : List (String × String) :=
  cs.foldl (fun table c => Assoc.set c.qualifiedName c.versionOrAny table) []

/-- The qualified names in a version table are those of the constraints. -/
theorem mem_keys_versionTable {cs : List Constraint} {q : String} :
    q ∈ (versionTable cs).map (·.1) ↔ ∃ c ∈ cs, c.qualifiedName = q := by
  have hfold : ∀ (cs : List Constraint) (table : List (String × String)),
      q ∈ (cs.foldl (fun t c => Assoc.set c.qualifiedName c.versionOrAny t) table).map (·.1) ↔
        q ∈ table.map (·.1) ∨ ∃ c ∈ cs, c.qualifiedName = q := by
    intro cs
    induction cs with
    | nil => simp
    | cons c cs ih =>
      intro table
      rw [List.foldl_cons, ih, ← Assoc.isSome_get?, Assoc.get?_set, ← Assoc.isSome_get? q table]
      by_cases hq : c.qualifiedName = q <;> simp [hq]
  unfold versionTable
  rw [hfold]
  simp

/-- Every entry of a version table is the version of one of the constraints. -/
theorem exists_of_mem_versionTable {cs : List Constraint} {entry : String × String}
    (h : entry ∈ versionTable cs) : ∃ c ∈ cs, entry = (c.qualifiedName, c.versionOrAny) := by
  have hfold : ∀ (cs : List Constraint) (table : List (String × String)),
      entry ∈ cs.foldl (fun t c => Assoc.set c.qualifiedName c.versionOrAny t) table →
        entry ∈ table ∨ ∃ c ∈ cs, entry = (c.qualifiedName, c.versionOrAny) := by
    intro cs
    induction cs with
    | nil => exact fun table h => .inl h
    | cons c cs ih =>
      intro table h
      rcases ih _ h with h | ⟨d, hd, he⟩
      · rcases Assoc.mem_set h with h | h
        · exact .inr ⟨c, List.mem_cons_self, h⟩
        · exact .inl h
      · exact .inr ⟨d, List.mem_cons_of_mem _ hd, he⟩
  exact (hfold cs [] h).resolve_left (by simp)

/-- The path of the file for a source. -/
def Layout.filePath (l : Layout) (source : String) : String :=
  l.typesPath source ++ "/index.ts"

/-- The path of the file for a source is made of segments. -/
theorem Layout.segmented_filePath {source : String} (h : Segmented source) (kind : TargetKind) :
    Segmented ((Layout.ofKind kind).filePath source) := by
  have hroot : Segmented (Layout.ofKind kind).root := by cases kind <;> decide
  have hindex : Segmented "index.ts" := by decide
  have hpath := (hroot.slash h).slash hindex
  rwa [String.append_assoc] at hpath

/-- The file for a source is not the version index. -/
theorem Layout.filePath_ne (l : Layout) (source : String) : l.filePath source ≠ VersionIndex.fileName := by
  intro h
  have hslash : '/' ∈ (l.filePath source).toList := by
    unfold Layout.filePath
    rw [String.toList_append]
    exact List.mem_append_right _ (by decide)
  rw [h] at hslash
  exact absurd hslash (by decide)

/-- Whether an emitter is closed and has only the files of sources. -/
structure Emitter.Emitted (layout : Layout) (e : Emitter) : Prop where
  /-- No file is open. -/
  closed : e.current = none
  /-- Every file is at the path for a source. -/
  sourced : ∀ file ∈ e.files, ∃ source, Segmented source ∧ file.1 = layout.filePath source

/-- The file for a name that resolves is written to the others, and its version is listed. -/
theorem run_emitName {layout : Layout} {kind : TargetKind} {name : String} {c : Constraint}
    (h : Constraint.resolve name = .ok c) (versions : List (String × String)) {e : Emitter}
    (he : e.Emitted layout) :
    ∃ e', (emitName layout kind versions name).run e =
      (.ok (Assoc.set c.qualifiedName c.versionOrAny versions), e') ∧ e'.Emitted layout := by
  unfold emitName
  rw [run_bind_of_ok (Constraint.run_resolveStaged_of_ok h e),
    run_bind_of_ok (c.run_emit _ he.closed), run_pure]
  refine ⟨_, rfl, rfl, fun file hfile => ?_⟩
  rcases Assoc.mem_set hfile with rfl | hfile
  · exact ⟨c.source kind, Constraint.segmented_of_resolve h kind, rfl⟩
  · exact he.sourced file hfile

/-- The files for names that resolve are written to the others one after another. -/
theorem run_emitNames {layout : Layout} (kind : TargetKind) {names : List String}
    {cs : List Constraint} (h : names.map Constraint.resolve = cs.map .ok)
    (versions : List (String × String)) {e : Emitter} (he : e.Emitted layout) :
    ∃ e', (names.foldlM (emitName layout kind) versions).run e =
      (.ok (cs.foldl (fun table c => Assoc.set c.qualifiedName c.versionOrAny table) versions), e') ∧
        e'.Emitted layout := by
  induction names generalizing cs versions e with
  | nil =>
    cases cs with
    | nil => exact ⟨e, rfl, he⟩
    | cons c cs => simp at h
  | cons name rest ih =>
    cases cs with
    | nil => simp at h
    | cons c cs =>
      simp only [List.map_cons, List.cons.injEq] at h
      obtain ⟨e', hfirst, he'⟩ := run_emitName h.1 versions he
      rw [List.foldlM_cons, run_bind_of_ok hfirst]
      exact ih h.2 _ he'

/-- The emission for names that resolve succeeds, whatever the names are. It leaves the files of sources
and after them the index of the versions of the constraints. -/
theorem run_emitBindings (layout : Layout) (kind : TargetKind) {names : List String}
    {cs : List Constraint} (h : names.map Constraint.resolve = cs.map .ok) :
    ∃ e front, (emitBindings layout names kind).run {} = (.ok (), e) ∧ e.current = none ∧
      e.files = front ++ [(VersionIndex.fileName, VersionIndex.text (versionTable cs))] ∧
      ∀ file ∈ front, ∃ source, Segmented source ∧ file.1 = layout.filePath source := by
  have hempty : ({} : Emitter).Emitted layout := ⟨rfl, by simp⟩
  obtain ⟨e, hnames, he⟩ := run_emitNames kind h [] hempty
  have hnew : Assoc.get? VersionIndex.fileName e.files = none := by
    rw [← Option.not_isSome_iff_eq_none, Assoc.isSome_get?]
    intro hmem
    obtain ⟨file, hfile, hname⟩ := List.mem_map.1 hmem
    obtain ⟨source, -, hpath⟩ := he.sourced file hfile
    exact layout.filePath_ne source (hpath.symm.trans hname)
  unfold emitBindings
  rw [run_bind_of_ok hnames]
  refine ⟨_, e.files, Emission.run_step rfl, he.closed, ?_, he.sourced⟩
  exact Assoc.set_of_get?_none hnew _

end ProviderBindings
