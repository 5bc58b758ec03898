import ProviderBindings.Proofs.Fitting
import ProviderBindings.Proofs.Inspection

/-!
# What is emitted can be saved

For names that pass the check for collisions one file is emitted for each of them, and the version index,
all under different paths (`exists_emitted`). Different paths are not enough for a tree: the source of a
module may go on from that of another with the name of its file, and then the one is to be a file and a
directory. Apart from this, and from what is too long, what is emitted can be saved into an empty directory,
and then is what stands below it (`save_emitted_iff`).
-/

namespace ProviderBindings

/-! ## The files of an emission -/

/-- The files for constraints, one for each, and the index of their versions. -/
def bindingFiles (layout : Layout) (kind : TargetKind) (cs : List Constraint) : List (String × String) :=
  cs.map (fun c => (layout.filePath (c.source kind), Text.unlines (c.fileLines 2))) ++
    [(VersionIndex.fileName, VersionIndex.text (versionTable cs))]

/-- Whatever the constraints are, the files for them are in ASCII. -/
theorem isAscii_of_mem_bindingFiles {layout : Layout} {kind : TargetKind} {cs : List Constraint}
    {file : String × String} (h : file ∈ bindingFiles layout kind cs) : IsAscii file.2 := by
  rcases List.mem_append.1 h with h | h
  · obtain ⟨c, -, rfl⟩ := List.mem_map.1 h
    exact c.isAscii_unlines_fileLines 2
  · rw [List.mem_singleton.1 h]
    exact VersionIndex.isAscii_text _

/-- Entries with new and different keys that are set one after another are put at the end. -/
theorem Assoc.foldl_set {α : Type} (key value : α → String) (entries : List α)
    {table : List (String × String)} (hnodup : (entries.map key).Nodup)
    (hnew : ∀ a ∈ entries, key a ∉ table.map (·.1)) :
    entries.foldl (fun table a => Assoc.set (key a) (value a) table) table =
      table ++ entries.map fun a => (key a, value a) := by
  induction entries generalizing table with
  | nil => simp
  | cons a rest ih =>
    rw [List.map_cons, List.nodup_cons] at hnodup
    have hnone : Assoc.get? (key a) table = none := by
      rw [← Option.not_isSome_iff_eq_none, Assoc.isSome_get?]
      exact hnew a (by simp)
    rw [List.foldl_cons, Assoc.set_of_get?_none hnone, ih hnodup.2]
    · simp
    · intro b hb hmem
      rw [List.map_append, List.mem_append] at hmem
      rcases hmem with hmem | hmem
      · exact hnew b (List.mem_cons_of_mem _ hb) hmem
      · refine hnodup.1 (List.mem_map.2 ⟨b, hb, ?_⟩)
        simpa using hmem

/-- The files for names that resolve are set one after another. -/
theorem run_emitNames_files (layout : Layout) (kind : TargetKind) {names : List String}
    {cs : List Constraint} (h : names.map Constraint.resolve = cs.map .ok)
    (versions : List (String × String)) {e : Emitter} (he : e.current = none) :
    ∃ e', (names.foldlM (emitName layout kind) versions).run e =
      (.ok (cs.foldl (fun table c => Assoc.set c.qualifiedName c.versionOrAny table) versions), e') ∧
        e'.current = none ∧
        e'.files = cs.foldl (fun files c => Assoc.set (layout.filePath (c.source kind))
          (Text.unlines (c.fileLines e.indentation)) files) e.files := by
  -- on the names; no file is open between two of them
  induction names generalizing cs versions e with
  | nil =>
    cases cs with
    | nil => exact ⟨e, rfl, he, rfl⟩
    | cons c cs => simp at h
  | cons name rest ih =>
    cases cs with
    | nil => simp at h
    | cons c cs =>
      simp only [List.map_cons, List.cons.injEq] at h
      have hfirst : (emitName layout kind versions name).run e =
          (.ok (Assoc.set c.qualifiedName c.versionOrAny versions),
            { e with
              files := Assoc.set (layout.filePath (c.source kind)) (Text.unlines (c.fileLines e.indentation))
                e.files
              current := none, lines := [], depth := 0 }) := by
        unfold emitName
        rw [run_bind_of_ok (Constraint.run_resolveStaged_of_ok h.1 e),
          run_bind_of_ok (c.run_emit _ he), run_pure]
        rfl
      rw [List.foldlM_cons, run_bind_of_ok hfirst]
      exact ih h.2 _ rfl

/-- The path of the file for a source tells the source. -/
theorem Layout.filePath_inj {layout : Layout} {a b : String} :
    layout.filePath a = layout.filePath b ↔ a = b := by
  refine ⟨fun h => ?_, fun h => h ▸ rfl⟩
  unfold Layout.filePath Layout.typesPath at h
  rw [← String.toList_inj] at h
  simp only [String.toList_append, List.append_cancel_right_eq, List.append_assoc,
    List.append_cancel_left_eq] at h
  exact String.toList_inj.1 h

/-- Constraints whose keys are different have different sources. -/
theorem nodup_sources {language : Language} {kind : TargetKind} {cs : List Constraint}
    (hkeys : (cs.map fun c => outputKey language (c.source kind)).Nodup) :
    (cs.map fun c => c.source kind).Nodup := by
  have hmap : (cs.map fun c => outputKey language (c.source kind)) =
      (cs.map fun c => c.source kind).map (outputKey language) := by
    rw [List.map_map]
    rfl
  rw [hmap] at hkeys
  exact hkeys.of_map _

/-- Constraints whose sources are different have files under different paths. -/
theorem nodup_filePaths (layout : Layout) {kind : TargetKind} {cs : List Constraint}
    (hsources : (cs.map fun c => c.source kind).Nodup) :
    (cs.map fun c => layout.filePath (c.source kind)).Nodup := by
  have hmap : (cs.map fun c => layout.filePath (c.source kind)) =
      (cs.map fun c => c.source kind).map layout.filePath := by
    rw [List.map_map]
    rfl
  rw [hmap]
  exact hsources.map fun a b => Layout.filePath_inj.1

/-- For names that pass the check for collisions, the emission succeeds with one file for each of them and
the version index, all under different paths. -/
theorem exists_emitted (layout : Layout) {language : Language} {kind : TargetKind} {names : List String}
    (h : checkCollisions names language kind = .ok ()) :
    ∃ (cs : List Constraint) (code : Emitter), names.map Constraint.resolve = cs.map .ok ∧
      (emitBindings layout names kind).run {} = (.ok (), code) ∧ code.current = none ∧
      code.files = bindingFiles layout kind cs ∧ (code.files.map (·.1)).Nodup := by
  obtain ⟨cs, hcs, hkeys⟩ := checkCollisions_ok_iff.1 h
  have hpaths := nodup_filePaths layout (nodup_sources hkeys)
  obtain ⟨e, hnames, hclosed, hfiles⟩ := run_emitNames_files layout kind hcs []
    (rfl : ({} : Emitter).current = none)
  rw [Assoc.foldl_set (fun c => layout.filePath (Constraint.source c kind)) _ cs hpaths (by simp),
    List.nil_append] at hfiles
  -- the index is one file more, since its path is that of no name
  have hindex : VersionIndex.fileName ∉ e.files.map (·.1) := by
    rw [hfiles, List.map_map]
    intro hmem
    obtain ⟨c, -, hpath⟩ := List.mem_map.1 hmem
    exact layout.filePath_ne _ hpath
  have hset : Assoc.set VersionIndex.fileName (VersionIndex.text (versionTable cs)) e.files =
      bindingFiles layout kind cs := by
    rw [Assoc.set_of_get?_none, hfiles]
    · rfl
    · rw [← Option.not_isSome_iff_eq_none, Assoc.isSome_get?]
      exact hindex
  refine ⟨cs, e.addFile VersionIndex.fileName (VersionIndex.text (versionTable cs)), hcs, ?_, hclosed, hset, ?_⟩
  · unfold emitBindings
    rw [run_bind_of_ok hnames]
    exact Emission.run_step rfl
  · show ((Assoc.set _ _ e.files).map (·.1)).Nodup
    refine Assoc.nodup_keys_set _ _ ?_
    rw [hfiles, List.map_map]
    exact hpaths

/-! ## Places of the files -/

/-- The names on the path of the file for a source: the directory of the layout, the segments of the source, and
the name of the file. -/
theorem split_filePath_eq (kind : TargetKind) (source : String) :
    Text.split '/' ((Layout.ofKind kind).filePath source) =
      (Layout.ofKind kind).root :: (Text.split '/' source ++ ["index.ts"]) := by
  have hpath : (Layout.ofKind kind).filePath source =
      (Layout.ofKind kind).root ++ "/" ++ (source ++ "/" ++ "index.ts") := by
    unfold Layout.filePath Layout.typesPath
    simp only [String.append_assoc]
    rfl
  have hroot : Text.split '/' (Layout.ofKind kind).root = [(Layout.ofKind kind).root] :=
    Text.split_of_not_mem (by cases kind <;> decide)
  have hindex : Text.split '/' "index.ts" = ["index.ts"] := Text.split_of_not_mem (by decide)
  rw [hpath, Text.split_append_slash, Text.split_append_slash, hroot, hindex]
  rfl

/-- The file for a source lies above another exactly when the other source goes on from it with the name of the
file. -/
theorem split_filePath_isPrefix_iff {kind : TargetKind} {a b : String} :
    Text.split '/' ((Layout.ofKind kind).filePath a) <+: Text.split '/' ((Layout.ofKind kind).filePath b) ↔
      Text.split '/' a = Text.split '/' b ∨ Text.split '/' a ++ ["index.ts"] <+: Text.split '/' b := by
  rw [split_filePath_eq, split_filePath_eq, List.cons_prefix_cons, List.prefix_concat_iff]
  simp only [true_and, List.append_cancel_right_eq]

/-- The segments of a source tell the source. -/
theorem Text.split_inj {a b : String} : split '/' a = split '/' b ↔ a = b := by
  refine ⟨fun h => ?_, fun h => h ▸ rfl⟩
  rw [← intercalate_split a, h, intercalate_split]

/-- No file for constraints lies above another exactly when no source goes on from another with the name of its
file. -/
theorem prefixFree_bindingFiles_iff (place kind : TargetKind) {cs : List Constraint} :
    View.PrefixFree (bindingFiles (.ofKind place) kind cs) ↔
      ∀ a ∈ cs, ∀ b ∈ cs,
        ¬Text.split '/' (a.source kind) ++ ["index.ts"] <+: Text.split '/' (b.source kind) := by
  have hindex : Text.split '/' VersionIndex.fileName = [VersionIndex.fileName] :=
    Text.split_of_not_mem (by decide)
  have hroot : (Layout.ofKind place).root ≠ VersionIndex.fileName := by cases place <;> decide
  unfold View.PrefixFree bindingFiles
  simp only [List.forall_mem_append, List.forall_mem_map, List.forall_mem_singleton]
  constructor
  · rintro ⟨hfree, -⟩ a ha b hb hpre
    have hsame := (hfree a ha).1 b hb (split_filePath_isPrefix_iff.2 (.inr hpre))
    rw [Text.split_inj, Layout.filePath_inj] at hsame
    rw [hsame] at hpre
    exact FileSystem.not_append_isPrefix (by simp) hpre
  · intro happart
    refine ⟨fun a ha => ⟨fun b hb hpre => ?_, fun hpre => ?_⟩, fun b hb hpre => ?_, fun _ => trivial⟩
    · rcases split_filePath_isPrefix_iff.1 hpre with hsame | hpre
      · rw [Text.split_inj] at hsame
        rw [hsame]
      · exact absurd hpre (happart a ha b hb)
    · rw [split_filePath_eq, hindex, List.cons_prefix_cons] at hpre
      exact absurd hpre.1 hroot
    · rw [split_filePath_eq, hindex, List.cons_prefix_cons] at hpre
      exact absurd hpre.1.symm hroot

/-- The source of a provider goes on from no other, so that no file for a provider lies above another. -/
theorem Constraint.not_isPrefix_source_provider {names : List String} {cs : List Constraint}
    (h : names.map Constraint.resolve = cs.map .ok) (a : Constraint) {b : Constraint} (hb : b ∈ cs) :
    ¬Text.split '/' (a.source .provider) ++ ["index.ts"] <+: Text.split '/' (b.source .provider) := by
  have hok : Except.ok b ∈ names.map Constraint.resolve := by
    rw [h]
    exact List.mem_map_of_mem hb
  obtain ⟨name, -, hname⟩ := List.mem_map.1 hok
  intro hpre
  have hlength := hpre.length_le
  have hpos := List.length_pos_iff.2 (Text.split_ne_nil (a.source .provider))
  rw [show b.source .provider = b.name from rfl, Constraint.split_name_of_resolve hname, List.length_append,
    List.length_singleton, List.length_singleton] at hlength
  omega

/-! ## Saving what is emitted -/

/-- Whether a path can be said and leads to an empty directory, the path of which from the root can be said as
well. -/
structure FileSystem.LeadsToEmpty (fs : FileSystem) (p : Path) (top : Location) : Prop where
  /-- The path can be said. -/
  sayable : p.Sayable
  /-- It starts at the root, or in a working directory that is there. -/
  starts : p.isAbsolute ∨ isGone fs.workingDirectory = false
  /-- It leads to the place. -/
  leads : fs.locate .follow p = .ok top
  /-- An empty directory stands there. -/
  empty : fs.IsEmptyDirectory top
  /-- The path of the place from the root can be said. -/
  named : (Path.fromRoot top).Sayable

/-- An empty directory has a proper location. -/
theorem FileSystem.LeadsToEmpty.proper {fs : FileSystem} {p : Path} {top : Location}
    (h : fs.LeadsToEmpty p top) (hs : fs.Sound) : Proper top := by
  by_cases hname : isNameless top
  · have hnil : top = [] := by
      rcases List.eq_nil_or_concat top with rfl | ⟨init, name, rfl⟩
      · rfl
      · have hempty : name = "" := by simpa [isNameless] using hname
        exact absurd hempty (h.named.written name (by simp [Path.fromRoot])).1
    simp [hnil, Proper]
  · exact hs.proper hname (by rw [h.empty.1]; rfl)

namespace Getter

open FileSystem

variable {s t : Session}

/-- Code that is closed is saved into an empty directory as its files are saved at the place of the directory. -/
theorem run_save_of_leadsToEmpty (hs : s.host.files.Sound) {directory : Path} {top : Location}
    (h : s.host.files.LeadsToEmpty directory top) {code : Emitter} (hclosed : code.current = none)
    {paths : List Path} :
    (save code directory).run s = (.ok paths, t) ↔
      ∃ fs, (code.saveFiles (.fromRoot top)).run s.host.files = (.ok paths, fs) ∧
        t = { s with host := { s.host with files := fs } } := by
  have hroot : s.host.files.Rooted top := hs.rooted h.empty.1 (h.proper hs)
  exact run_save_iff hclosed (run_resolve_ok_iff.2 ⟨rfl, h.sayable.nameFault?, h.starts, (resolve_eq h.leads).symm,
    hroot.isEndless_eq_false (h.proper hs)⟩)

/-- The paths of files that were saved are those of the files below the directory. -/
theorem paths_of_run_saveFiles {fs u : FileSystem} {root : Path} {code : Emitter} {paths : List Path}
    (h : (code.saveFiles root).run fs = (.ok paths, u)) :
    paths = code.files.map fun file => root.child file.1 := by
  unfold Emitter.saveFiles at h
  generalize code.files = files at h
  induction files generalizing fs paths with
  | nil =>
    cases h
    rfl
  | cons file rest ih =>
    obtain ⟨path, v, paths', hfile, hrest, rfl⟩ := run_mapM_cons_ok h
    unfold Emitter.saveFile at hfile
    obtain ⟨⟨⟩, w, -, hfile⟩ := exists_of_run_bind_ok hfile
    obtain ⟨⟨⟩, x, -, hfile⟩ := exists_of_run_bind_ok hfile
    cases hfile
    rw [ih hrest]
    rfl

/-- For names that pass the check for collisions, one file is emitted for each of them and the version index, all
under different paths. What is emitted can be saved into an empty directory exactly when the source of no name goes
on from that of another with the name of its file, and no path gets too long. The regular files below the directory
are then the emitted ones with their texts, and nothing else is changed. -/
theorem save_emitted_iff (place : TargetKind) {language : Language} {kind : TargetKind} {names : List String}
    (hcheck : checkCollisions names language kind = .ok ()) :
    ∃ (cs : List Constraint) (code : Emitter), names.map Constraint.resolve = cs.map .ok ∧
      (emitBindings (.ofKind place) names kind).run {} = (.ok (), code) ∧
      code.files = bindingFiles (.ofKind place) kind cs ∧ (code.files.map (·.1)).Nodup ∧
      ∀ (s : Session) (directory : Path) (top : Location), s.host.files.Sound →
        s.host.files.LeadsToEmpty directory top →
        ((∃ paths t, (save code directory).run s = (.ok paths, t)) ↔
          (∀ a ∈ cs, ∀ b ∈ cs,
            ¬Text.split '/' (a.source kind) ++ ["index.ts"] <+: Text.split '/' (b.source kind)) ∧
          ∀ file ∈ code.files, FitsBelow top file.1) ∧
        ∀ paths t, (save code directory).run s = (.ok paths, t) →
          paths = code.files.map (fun file => (Path.fromRoot top).child file.1) ∧
          (∀ place content x, t.host.files.get? (top ++ place) = some (.file content x) ↔
            ∃ file ∈ code.files, Text.split '/' file.1 = place ∧ content = .text file.2 ∧ x = false) ∧
          OnlyBelow top s.host.files t.host.files ∧
          t = { s with host := { s.host with files := t.host.files } } := by
  obtain ⟨cs, code, hcs, hrun, hclosed, hfiles, hnodup⟩ := exists_emitted (.ofKind place) hcheck
  have hsegmented : ∀ file ∈ code.files, Segmented file.1 := by
    intro file hfile
    rw [hfiles] at hfile
    rcases List.mem_append.1 hfile with hfile | hfile
    · obtain ⟨c, hc, rfl⟩ := List.mem_map.1 hfile
      exact Layout.segmented_filePath (Constraint.segmented_of_mem hcs hc kind) place
    · rw [List.mem_singleton.1 hfile]
      show Segmented VersionIndex.fileName
      decide
  refine ⟨cs, code, hcs, hrun, hfiles, hnodup, fun s directory top hs h => ?_⟩
  have htop : Proper top := h.proper hs
  have hiff := Emitter.saveFiles_ok_iff hs h.empty h.named htop hsegmented
  refine ⟨?_, fun paths t hsave => ?_⟩
  · rw [← prefixFree_bindingFiles_iff place, ← hfiles, and_comm, ← hiff]
    constructor
    · rintro ⟨paths, t, hsave⟩
      obtain ⟨fs, hsaved, -⟩ := (run_save_of_leadsToEmpty hs h hclosed).1 hsave
      exact ⟨paths, fs, hsaved⟩
    · rintro ⟨paths, fs, hsaved⟩
      exact ⟨paths, _, (run_save_of_leadsToEmpty hs h hclosed).2 ⟨fs, hsaved, rfl⟩⟩
  · obtain ⟨fs, hsaved, rfl⟩ := (run_save_of_leadsToEmpty hs h hclosed).1 hsave
    obtain ⟨-, hfree⟩ := hiff.1 ⟨paths, fs, hsaved⟩
    obtain ⟨honly, hview⟩ := Emitter.run_saveFiles_below hs h.empty.1 (h.empty.unlinked hs htop) htop hsegmented
      hsaved
    refine ⟨paths_of_run_saveFiles hsaved, fun place content x => ?_, honly, rfl⟩
    have hnone : ∀ rest c y, View.empty rest ≠ some (.file c y) := by
      intro rest c y hentry
      unfold View.empty at hentry
      split at hentry <;> cases hentry
    show fs.view top place = _ ↔ _
    rw [hview, h.empty.2, View.writeAll_eq_file_iff hfree hnodup]
    have hexecutable : isExecutable (View.empty place) = false := by
      unfold View.empty
      split <;> rfl
    rw [hexecutable]
    simp [hnone]

/-- The directory for temporary files of the bare host is empty. -/
theorem leadsToEmpty_bareHost : RunOptions.bareHost.files.LeadsToEmpty (.fromRoot ["tmp"]) ["tmp"] :=
  ⟨⟨by decide, by decide⟩, .inl rfl, by decide +kernel, isEmptyDirectory_of_isEmptyBelow rfl (by decide),
    ⟨by decide, by decide⟩⟩

/-- The code for names, as far as it is emitted. -/
def emittedFor (kind : TargetKind) (names : List String) : Emitter :=
  ((emitBindings (.ofKind kind) names kind).run {}).2

/-- What is emitted for two modules is saved into an empty directory, and is what stands there then. -/
theorem save_emitted_modules :
    ∃ paths t, (save (emittedFor .module ["aws", "org/mod@~> 1.0"]) (.fromRoot ["tmp"])).run
        { host := RunOptions.bareHost } = (.ok paths, t) ∧
      ∀ place content x, t.host.files.get? (["tmp"] ++ place) = some (.file content x) ↔
        ∃ file ∈ (emittedFor .module ["aws", "org/mod@~> 1.0"]).files,
          Text.split '/' file.1 = place ∧ content = .text file.2 ∧ x = false := by
  obtain ⟨cs, code, -, hrun, -, -, hsave⟩ := save_emitted_iff .module
    (isOk_iff.1 (by decide +kernel) : checkCollisions ["aws", "org/mod@~> 1.0"] .python .module = .ok ())
  obtain rfl : emittedFor .module ["aws", "org/mod@~> 1.0"] = code := by rw [emittedFor, hrun]
  have hsome : ((save (emittedFor .module ["aws", "org/mod@~> 1.0"]) (.fromRoot ["tmp"])).run
      { host := RunOptions.bareHost }).1.toOption.isSome = true := by
    decide +kernel
  rcases hrun : (save (emittedFor .module ["aws", "org/mod@~> 1.0"]) (.fromRoot ["tmp"])).run
      { host := RunOptions.bareHost } with ⟨failure | paths, t⟩
  · rw [hrun] at hsome
    cases hsome
  · obtain ⟨-, hafter⟩ := hsave { host := RunOptions.bareHost } (.fromRoot ["tmp"]) ["tmp"]
      RunOptions.sound_bareHost leadsToEmpty_bareHost
    exact ⟨paths, t, rfl, (hafter paths t hrun).2.1⟩

/-- What is emitted for two modules that pass the check for collisions cannot be saved into an empty directory, where
the one is `a` and the other `a/index.ts`. -/
theorem not_saved_of_accepted :
    ¬∀ (names : List String) (language : Language) (kind : TargetKind) (s : Session) (directory : Path)
      (top : Location), checkCollisions names language kind = .ok () → s.host.files.Sound →
      s.host.files.LeadsToEmpty directory top →
      ∃ paths t, (save (emittedFor kind names) directory).run s = (.ok paths, t) := by
  intro hall
  obtain ⟨paths, t, hsave⟩ := hall ["a", "a/index.ts"] .typescript .module { host := RunOptions.bareHost }
    (.fromRoot ["tmp"]) ["tmp"] (isOk_iff.1 (by decide +kernel)) RunOptions.sound_bareHost leadsToEmpty_bareHost
  have hnone : ((save (emittedFor .module ["a", "a/index.ts"]) (.fromRoot ["tmp"])).run
      { host := RunOptions.bareHost }).1.toOption.isSome = false := by
    decide +kernel
  rw [hsave] at hnone
  cases hnone

end Getter

end ProviderBindings
