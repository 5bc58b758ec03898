import ProviderBindings.Proofs.Emissions
import ProviderBindings.Proofs.FileSystem.WellFormed
import ProviderBindings.Proofs.Reordering
import ProviderBindings.Proofs.Separation

/-!
# Manifests beside the code

The path of the code for a source is computed twice: when the code of all names is emitted, and again for the manifest
of each. The two agree. Whenever the compiler is asked to act, for whatever request, the manifest in its directory reads
as a document that names the package of the source and has its entry point where the code of that source stands
(`Prepared`). Neither replaces the other: what was saved stands as it was emitted, and no file of it has the place of the
manifest.

This rests on the staging directory being new, and on nothing else that is to be found in the tree, so it is enough that
the tree stays one (`Host.Whole`). What the tools do to it besides is left open.
-/

namespace ProviderBindings

open FileSystem

/-! ## What a manifest says -/

namespace Json

/-- What an object has under a name: the last of its members of that name, as readers take it. -/
def member? (name : String) : Json → Option Json
  | .obj members => Assoc.get? name members.reverse
  | _ => none

/-- What is found in a document along names, each of a member of the object before it. -/
def at? (j : Json) : List String → Option Json
  | [] => some j
  | name :: rest => (j.member? name).bind fun value => value.at? rest

end Json

/-- A package name has no slash. -/
theorem not_mem_packageName (source : String) : '/' ∉ (packageName source).toList := by
  unfold packageName Text.swapChar
  rw [String.toList_ofList, List.mem_map]
  rintro ⟨c, -, hc⟩
  split at hc
  · cases hc
  · next hne => exact hne hc

/-- The package name of a text that a path can have is one as well. -/
theorem faultless_packageName {source : String} (h : PathFault.ofText? source = none) :
    PathFault.ofText? (packageName source) = none := by
  rw [PathFault.ofText?_eq_none_iff] at h ⊢
  intro c hc
  unfold packageName Text.swapChar at hc
  rw [String.toList_ofList, List.mem_map] at hc
  obtain ⟨d, hd, rfl⟩ := hc
  split
  · decide
  · exact h d hd

namespace Manifest

/-- Whether a text reads as a document that names a package, in the index of packages as well, and has the entry point
of the package in a directory. -/
def IsFor (text package typesPath : String) : Prop :=
  ∃ document, Json.read text = some document ∧
    document.at? ["name"] = some (.str package) ∧
    document.at? ["jsii", "targets", "python", "module"] = some (.str package) ∧
    document.at? ["main"] = some (.str (typesPath ++ "/index.js")) ∧
    document.at? ["types"] = some (.str (typesPath ++ "/index.d.ts"))

/-- No pairs are split in a manifest that is written for texts that a path can have. -/
theorem joined_document {m : Manifest} (hentry : PathFault.ofText? m.entryPoint = none)
    (hpackage : PathFault.ofText? m.package = none) (hpath : PathFault.ofText? m.typesPath = none) :
    Json.joined m.document = m.document := by
  have hjoined : ∀ {s : String}, PathFault.ofText? s = none → Text.joined s = s :=
    fun h => Text.joined_eq_iff.2 (Text.unsplit_of_faultless h)
  have hdescription := hjoined (PathFault.ofText?_append.2 ⟨by decide, hentry⟩ :
    PathFault.ofText? ("Generated bindings for " ++ m.entryPoint) = none)
  have hmain := hjoined (PathFault.ofText?_append.2 ⟨hpath, by decide⟩ :
    PathFault.ofText? (m.typesPath ++ "/index.js") = none)
  have htypes := hjoined (PathFault.ofText?_append.2 ⟨hpath, by decide⟩ :
    PathFault.ofText? (m.typesPath ++ "/index.d.ts") = none)
  -- all other texts in it are fixed
  simp (disch := decide) only [document, Json.joined, Json.joinedMembers, hjoined, hdescription, hmain, htypes,
    hjoined hpackage]

/-- A manifest that is written for texts that a path can have reads as what it was written for. -/
theorem isFor_text {m : Manifest} (hentry : PathFault.ofText? m.entryPoint = none)
    (hpackage : PathFault.ofText? m.package = none) (hpath : PathFault.ofText? m.typesPath = none) :
    IsFor (m.text ++ "\n") m.package m.typesPath := by
  refine ⟨m.document, ?_, ?_, ?_, ?_, ?_⟩
  · rw [text, Json.read_render _ (List.all_eq_true.1 rfl), joined_document hentry hpackage hpath]
  · rfl
  · rfl
  · rfl
  · rfl

end Manifest

/-! ## Hosts whose tree stays one -/

/-- Whether the files of a host form a tree, and the path of its staging root is written. -/
structure Host.Whole (parent : Option Path) (host : Host) : Prop where
  /-- The files form a tree. -/
  tree : host.files.WellFormed
  /-- The path of the staging root is written. -/
  root : (parent.getD host.temporary).Written

/-- Whether a tool leaves a tree, and the directory for temporary files where it is. -/
structure Dispatch.LeavesTree (d : Dispatch) : Prop where
  /-- Where the files formed a tree, they still do. -/
  tree : d.before.files.WellFormed → d.after.files.WellFormed
  /-- Temporary files go where they went. -/
  temporary : d.after.temporary = d.before.temporary

variable {parent : Option Path} {host host' : Host}

/-- A host is whole with another tree. -/
theorem Host.Whole.with (h : host.Whole parent) {files : FileSystem} (hf : files.WellFormed) :
    ({ host with files } : Host).Whole parent :=
  ⟨hf, h.root⟩

/-- A host is whole after notices were left in the log. -/
theorem Noted.whole (h : Noted host host') (hs : host.Whole parent) : host'.Whole parent := by
  obtain ⟨line, hline⟩ := h.files
  exact ⟨hline ▸ hs.tree.writeHeld line, h.temporary ▸ hs.root⟩

/-- A host is whole after a tool that leaves a tree. -/
theorem Dispatch.LeavesTree.whole {d : Dispatch} (h : d.LeavesTree) (hs : d.before.Whole parent) :
    d.after.Whole parent :=
  ⟨h.tree hs.tree, h.temporary ▸ hs.root⟩

/-- To save code keeps trees. -/
theorem Emitter.keeps_saveFiles (code : Emitter) {root : Path} (hroot : root.Written) : Keeps (code.saveFiles root) := by
  refine Keeps.mapM fun file _ => ?_
  have htarget : (root.child file.1).Written := hroot.child file.1
  exact (keeps_makeDirectories htarget.parent).bind fun _ =>
    (keeps_writeText htarget file.2).bind fun _ => keeps_pure _

namespace Harvester

/-- To clear a place keeps trees. -/
theorem keeps_clearPlace (p : Path) : Keeps (clearPlace p) :=
  preserves_clearPlace (keeps_removeTree p) (keeps_unlink p)

/-- To put something in the place of something else keeps trees. -/
theorem keeps_replacePlace {source target : Path} (hs : source.Written) (ht : target.Written) :
    Keeps (replacePlace source target) :=
  (keeps_clearPlace target).bind fun _ => (keeps_makeDirectories ht.parent).bind fun _ => keeps_move hs ht

/-- A host is whole after a harvest. -/
theorem whole_harvest {directory output : Path} {name : String} (hdirectory : directory.Written)
    (houtput : output.Written) (hs : host.Whole parent) {result : Except Failure Path}
    (hrun : (harvest directory output name .package).run host = (result, host')) : host'.Whole parent := by
  have hsource : (sourcePath directory name).Written := (((hdirectory.child _).child _).child _).child _
  have hkeeps := keeps_replacePlace hsource (houtput.child name)
  cases harvests_of_run hrun with
  | unseen | missing => exact hs
  | unmoved _ hreplace => exact hs.with (hkeeps.of_run hs.tree hreplace)
  | moved _ hreplace hnoted =>
    obtain ⟨line, hline⟩ := hnoted.files
    exact ⟨hline ▸ (hkeeps.of_run hs.tree hreplace).writeHeld line, hnoted.temporary ▸ hs.root⟩

end Harvester

/-! ## New directories -/

/-- Whether a path leads to a directory of a tree that is new: it is empty, and no file in it is held open. -/
structure FileSystem.IsFresh (fs : FileSystem) (directory : Path) (place : Location) : Prop where
  /-- The path can be written. -/
  written : directory.Written
  /-- The place has proper names. -/
  proper : Proper place
  /-- The path leads to the place. -/
  leads : fs.locate .follow directory = .ok place
  /-- An empty directory stands there. -/
  empty : fs.IsEmptyDirectory place
  /-- No file at or below it is held open. -/
  unheld : ∀ rest, fs.held ≠ some (place ++ rest)

/-- A directory that was made where nothing stood is new. -/
theorem FileSystem.Sound.isFresh_put {fs : FileSystem} (hs : fs.Sound) {directory : Path} (hp : directory.Written)
    {place : Location} (hl : fs.locate .keep directory = .ok place) (hfree : fs.get? place = none) :
    (fs.put place .directory).IsFresh directory place := by
  obtain ⟨-, hfollow, -⟩ := locate_put_directory hl hfree
  exact ⟨hp, (hs.free_place hp hl (by simp [hfree])).1, hfollow, hs.isEmptyDirectory_put hfree, fun rest hheld =>
    hs.not_isPrefix_held_of_none hfree hheld (List.prefix_append _ _)⟩

/-- A staging directory that was made is new. -/
theorem Staging.isFresh_of_acquire {label : String} (hlabel : '/' ∉ label.toList) (hs : host.Whole parent)
    {directory : Path} (hrun : (acquire label parent).run host = (.ok directory, host')) :
    host'.Whole parent ∧ ∃ place, host'.files.IsFresh directory place := by
  obtain ⟨root, fs, hroot, hmake, rfl, rfl⟩ := run_acquire_ok hrun
  have htree : root.WellFormed := by
    cases parent with
    | none => exact hroot ▸ hs.tree
    | some p => exact (keeps_makeDirectories hs.root).of_run hs.tree hroot
  have hname (n : Nat) : Path.IsName (scratchName label n) := (isName_scratchName hlabel n).1
  unfold nextText scratchText at hmake ⊢
  rw [Path.ofString_joinText hs.root (hname _)]
  have hfiles := (keeps_makeDirectoryAt fun hl => ⟨_, hs.root.child _, locate_of_joinText hs.root (hname _) hl⟩).of_run
    htree hmake
  obtain ⟨-, place, htext, hfree, rfl⟩ := run_makeDirectoryAt_ok_iff.1 hmake
  exact ⟨⟨hfiles, hs.root⟩, place,
    htree.sound.isFresh_put (hs.root.child _) (locate_of_joinText hs.root (hname _) htext) hfree⟩

/-! ## What is staged -/

/-- The manifest stands beside the code that is staged. -/
theorem stagedView_manifest {code : Emitter} (hcode : code.Stageable) (m : Manifest) :
    stagedView code m [Manifest.fileName] = some (.file (.text (m.text ++ "\n")) false) := by
  unfold stagedView View.write
  rw [if_pos rfl, View.writeAll_of_apart hcode.apart]
  rfl

/-- A file that is staged stands as it was emitted. -/
theorem stagedView_file {code : Emitter} (hcode : code.Stageable) (hfree : View.PrefixFree code.files)
    (hnodup : (code.files.map (·.1)).Nodup) (m : Manifest) {file : String × String} (hfile : file ∈ code.files) :
    stagedView code m (Text.split '/' file.1) = some (.file (.text file.2) false) := by
  have hapart := hcode.apart file hfile
  have hwritten : View.empty.writeAll code.files (Text.split '/' file.1) = some (.file (.text file.2) false) := by
    refine (View.writeAll_eq_file_iff hfree hnodup).2 (.inl ⟨file, hfile, rfl, rfl, ?_⟩)
    unfold View.empty
    split <;> rfl
  unfold stagedView View.write
  rw [if_neg, if_neg, hwritten]
  · intro hway
    rcases List.prefix_cons_iff.1 hway with hnil | ⟨rest, he, -⟩
    · exact Text.split_ne_nil _ hnil
    · exact hapart (by rw [he]; exact List.prefix_append [_] rest)
  · intro he
    exact hapart (by rw [he])

/-- Whether a tool finds code and a manifest in the directory it is to work in, with nothing else there. -/
structure Dispatch.FindsStaged (d : Dispatch) (code : Emitter) (m : Manifest) (work : Location) : Prop where
  /-- The working directory is there. -/
  leads : d.before.files.locate .follow (.ofString d.context.workingDirectory) = .ok work
  /-- The code and the manifest stand in it, and nothing else. -/
  view : d.before.files.view work = stagedView code m
  /-- The log is kept elsewhere. -/
  unheld : ∀ rest, d.before.files.held ≠ some (work ++ rest)
  /-- The path of no file of the code leads on from that of another. -/
  prefixFree : View.PrefixFree code.files

namespace Getter

variable {g : Getter} {request : Request} {code : Emitter} {language : Language} {harvester : Harvester}
  {output directory : Path} {name source : String} {start stop : Host} {ds : List Dispatch}

/-- Of the tools that are asked to act for what is staged the compiler is the first. -/
theorem Built.of_compiler {result : Except Failure Path}
    (h : Built g language harvester output name source start ds result stop) {d : Dispatch} (hd : d ∈ ds)
    (hcompiler : d.context.action.adapter = CommandKind.compiler.command) :
    d.before = start ∧ g.Compiles source d := by
  have hother : ∀ {e f : Dispatch}, Packages source language e f →
      f.context.action.adapter ≠ CommandKind.compiler.command := by
    intro e f hf
    rw [hf.action]
    show CommandKind.packager.command ≠ CommandKind.compiler.command
    decide
  cases h with
  | compileFailed hc =>
    obtain rfl := List.mem_singleton.1 hd
    exact ⟨rfl, hc⟩
  | packageFailed hc _ he | harvestFailed hc _ he | harvested hc _ he =>
    rcases List.mem_pair.1 hd with rfl | rfl
    · exact ⟨rfl, hc⟩
    · exact absurd hcompiler (hother he)

/-- Code that was saved into a new directory, and a manifest that was written there, are all that is in it. -/
theorem view_of_isFresh {fs saved files : FileSystem} (hs : fs.Sound) {place : Location}
    (hfresh : fs.IsFresh directory place) (hcode : code.Stageable) {paths : List Path}
    (hsave : (code.saveFiles (.fromRoot place)).run fs = (.ok paths, saved)) {m : Manifest}
    (hmanifest : (writeText (directory.child Manifest.fileName) (m.text ++ "\n")).run saved = (.ok (), files)) :
    Filled fs files ∧ files.view place = stagedView code m := by
  have hplace : (Path.fromRoot place).Written := hfresh.proper.written
  have hfilled : Filled fs saved := Emitter.run_mapM_saveFile_ok hs hplace hsave
  obtain ⟨honly, hview⟩ := Emitter.run_saveFiles_below hs hfresh.empty.1 (hfresh.empty.unlinked hs hfresh.proper)
    hfresh.proper hcode.segmented hsave
  obtain ⟨hfilled', -⟩ := run_writeText_ok hfilled.sound (hfresh.written.child Manifest.fileName) hmanifest
  obtain ⟨-, hview'⟩ := run_writeText_below honly.sound hfresh.written (hfilled.locate hfresh.leads hfresh.empty.1)
    honly.directory honly.unlinked hfresh.proper Site.Desk.proper_manifest hmanifest
  refine ⟨hfilled.trans hfilled', ?_⟩
  rw [hview', hview, hfresh.empty.2]
  rfl

/-- Where files can be saved into an empty directory, the place of none lies above that of another. -/
theorem prefixFree_of_run_saveFiles {fs saved : FileSystem} (hs : fs.Sound) {place : Location} (hp : Proper place)
    (hempty : fs.IsEmptyDirectory place) (hcode : code.Stageable) {paths : List Path}
    (hsave : (code.saveFiles (.fromRoot place)).run fs = (.ok paths, saved)) : View.PrefixFree code.files := by
  rcases List.eq_nil_or_concat code.files with hnil | ⟨front, last, hlast⟩
  · rw [hnil]
    exact fun a ha => nomatch ha
  rw [List.concat_eq_append] at hlast
  -- the last file is found along its path, which starts with that of the directory
  obtain ⟨-, -, x, hstatus⟩ := Emitter.run_saveFiles_append_ok hs hp.written hlast hsave
  obtain ⟨hfault, -⟩ := status_eq_some_iff.1 hstatus
  have hfile : last ∈ code.files := by simp [hlast]
  rw [(hcode.segmented last hfile).child, PathFault.ofText?_text] at hfault
  have hsay : (Path.fromRoot place).Sayable :=
    ⟨hp.written, fun n hn => hfault n (List.mem_append_left _ hn)⟩
  exact ((Emitter.saveFiles_ok_iff hs hempty hsay hp hcode.segmented).1 ⟨paths, saved, hsave⟩).2

/-- The compiler finds code and a manifest in a staging directory that was new. -/
theorem Staged.findsStaged {result : Except Failure Path}
    (h : Staged g code language harvester output name source directory start ds result stop)
    (hs : start.files.Sound) {place : Location} (hfresh : start.files.IsFresh directory place) (hcode : code.Stageable)
    {d : Dispatch} (hd : d ∈ ds) (hcompiler : d.context.action.adapter = CommandKind.compiler.command) :
    g.Compiles source d ∧ d.FindsStaged code (g.manifest source) place := by
  cases h with
  | unresolved => cases hd
  | unsaved => cases hd
  | unmanifested => cases hd
  | built hresolve hsave hmanifest hwhere hbuilt =>
    obtain ⟨hbefore, hcompiles⟩ := hbuilt.of_compiler hd hcompiler
    obtain ⟨-, -, -, rfl, -⟩ := run_resolve_ok_iff.1 hresolve
    rw [resolve_eq hfresh.leads] at hsave
    obtain ⟨hfilled, hview⟩ := view_of_isFresh hs hfresh hcode hsave hmanifest
    refine ⟨hcompiles, ?_, ?_, fun rest => ?_, prefixFree_of_run_saveFiles hs hfresh.proper hfresh.empty hcode hsave⟩
    · rw [hbefore, hwhere d hd, Path.ofString_text hfresh.written]
      exact hfilled.locate hfresh.leads hfresh.empty.1
    · rw [hbefore, hview]
    · rw [hbefore, hfilled.held]
      exact hfresh.unheld rest

/-- In the turn of a name the compiler finds the code and the manifest for that name. -/
theorem Turn.findsStaged {result : Except Failure Path}
    (h : Turn g code language harvester output name source start ds result stop) (hs : start.Whole g.stagingRoot)
    (hcode : code.Stageable) {d : Dispatch} (hd : d ∈ ds)
    (hcompiler : d.context.action.adapter = CommandKind.compiler.command) :
    g.Compiles source d ∧ ∃ work, d.FindsStaged code (g.manifest source) work := by
  cases h with
  | unstaged => cases hd
  | staged hacquire hstaged =>
    obtain ⟨hmade, place, hfresh⟩ := Staging.isFresh_of_acquire (by decide) hs hacquire
    obtain ⟨hcompiles, hfinds⟩ := hstaged.findsStaged hmade.tree.sound hfresh hcode hd hcompiler
    exact ⟨hcompiles, place, hfinds⟩

/-- What is built to its end leaves a whole host. -/
theorem Built.whole {path : Path} (h : Built g language .package output name source start ds (.ok path) stop)
    (hs : start.Whole parent) (houtput : output.Written) (htools : ∀ d ∈ ds, d.LeavesTree) : stop.Whole parent := by
  cases h with
  | @harvested d e path host hd hok he hok' hharvest =>
    have hmiddle : e.before.Whole parent := he.before ▸ (htools d (by simp)).whole hs
    exact Harvester.whole_harvest (Path.written_ofString _) houtput ((htools e (by simp)).whole hmiddle) hharvest

/-- A turn that comes to its end leaves a whole host. -/
theorem Turn.whole {path : Path} (h : Turn g code language .package output name source start ds (.ok path) stop)
    (hs : start.Whole g.stagingRoot) (houtput : output.Written) (htools : ∀ d ∈ ds, d.LeavesTree) :
    stop.Whole g.stagingRoot := by
  cases h with
  | @staged directory made ds result stop hacquire hstaged =>
    obtain ⟨hmade, place, hfresh⟩ := Staging.isFresh_of_acquire (by decide) hs hacquire
    cases hstaged with
    | built hresolve hsave hmanifest hwhere hbuilt =>
      obtain ⟨-, -, -, rfl, -⟩ := run_resolve_ok_iff.1 hresolve
      rw [resolve_eq hfresh.leads] at hsave
      have hsaved := (code.keeps_saveFiles hfresh.proper.written).of_run hmade.tree hsave
      have hfiles := (keeps_writeText (hfresh.written.child _) _).of_run hsaved hmanifest
      have hlast := hbuilt.whole (hmade.with hfiles) houtput htools
      exact hlast.with (keeps_removeTree directory _ hlast.tree)

/-- In the turns of names the compiler finds the code and the manifest for one of the names each time. -/
theorem Turns.findsStaged {names : List String} {result : Except Failure (List Path)}
    (h : Turns g code request .package output names start ds result stop) (hs : start.Whole g.stagingRoot)
    (hcode : code.Stageable) (houtput : output.Written) (htools : ∀ d ∈ ds, d.LeavesTree) {d : Dispatch} (hd : d ∈ ds)
    (hcompiler : d.context.action.adapter = CommandKind.compiler.command) :
    ∃ name ∈ names, ∃ c, Constraint.resolve name = .ok c ∧ g.Compiles (c.source request.kind) d ∧
      ∃ work, d.FindsStaged code (g.manifest (c.source request.kind)) work := by
  -- on the turns; each that comes to its end leaves a host that the next one can start on
  induction h with
  | done => cases hd
  | @stopped name rest c start noted ds failure stop hc hnoted hturn =>
    exact ⟨name, by simp, c, hc, hturn.findsStaged (hnoted.whole hs) hcode hd hcompiler⟩
  | @passed name rest c start noted middle ds es path result stop hc hnoted hturn hrest ih =>
    rcases List.mem_append.1 hd with hd | hd
    · exact ⟨name, by simp, c, hc, hturn.findsStaged (hnoted.whole hs) hcode hd hcompiler⟩
    · have hmiddle := hturn.whole (hnoted.whole hs) houtput fun e he => htools e (List.mem_append_left _ he)
      obtain ⟨other, hother, hfinds⟩ := ih hmiddle (fun e he => htools e (List.mem_append_right _ he)) hd
      exact ⟨other, List.mem_cons_of_mem _ hother, hfinds⟩

/-! ## What the compiler is asked to compile -/

/-- The code of an accepted request has one file for each of its names and the index of versions, all of them under
different paths. -/
theorem Accepted.exists_files (hg : g.IsStandard) (h : Accepted g request harvester code) :
    ∃ cs : List Constraint, request.names.map Constraint.resolve = cs.map .ok ∧
      code.files = bindingFiles g.layout request.kind cs ∧ (code.files.map (·.1)).Nodup := by
  obtain ⟨cs, emitted, hcs, hrun, -, hfiles, hnodup⟩ := exists_emitted g.layout h.distinct
  have hemission := h.emission { host := RunOptions.bareHost }
  rw [run_emission, hg.1, hrun] at hemission
  obtain rfl : emitted = code := Except.ok.inj (Prod.ext_iff.1 hemission).1
  exact ⟨cs, hcs, hfiles, hnodup⟩

/-- There are bytes for the code of an accepted request, whatever its names are. -/
theorem Accepted.encodable (hg : g.IsStandard) (h : Accepted g request harvester code) :
    ∀ file ∈ code.files, Text.hasHalf file.2 = false := by
  obtain ⟨cs, -, hfiles, -⟩ := h.exists_files hg
  rw [hfiles]
  exact fun file hfile => (isAscii_of_mem_bindingFiles hfile).hasHalf_eq_false

/-- The action of the compiler tells the source. -/
theorem Compiles.source_eq {other : String} {d : Dispatch} (h : g.Compiles source d) (h' : g.Compiles other d) :
    source = other :=
  Option.some.inj (congrArg Action.forTarget (Eq.trans (Eq.symm h) h'))

/-- Whether the compiler is asked to act in a directory that is prepared for a constraint, where the manifest agrees
with the code. -/
structure Prepared (request : Request) (code : Emitter) (c : Constraint) (d : Dispatch) (work : Location) : Prop where
  /-- The working directory is there. -/
  leads : d.before.files.locate .follow (.ofString d.context.workingDirectory) = .ok work
  /-- The manifest in it reads as one for the package of the source, and has the entry point where the file of that very
  constraint is among the code. The literals of this file spell the constraint, and are read back as it unless a pair is
  split in it. -/
  manifest : ∃ text typesPath, d.before.files.get? (work ++ [Manifest.fileName]) = some (.file (.text text) false) ∧
    Manifest.IsFor text (packageName (c.source request.kind)) typesPath ∧
    ∃ file, (typesPath ++ "/index.ts", file) ∈ code.files ∧ c.HasSource Json.IsSpelling 2 file ∧
      (Text.Unsplit c.text.toList → c.HasSource Json.IsLiteral 2 file)
  /-- No slash is in the name of the package. -/
  slashless : '/' ∉ (packageName (c.source request.kind)).toList
  /-- All code stands there as it was emitted. -/
  staged : ∀ file ∈ code.files,
    d.before.files.get? (work ++ Text.split '/' file.1) = some (.file (.text file.2) false)
  /-- None of it is in the place of the manifest. -/
  apart : ∀ file ∈ code.files, Text.split '/' file.1 ≠ [Manifest.fileName]
  /-- The log is kept elsewhere. -/
  unheld : ∀ rest, d.before.files.held ≠ some (work ++ rest)

/-- The manifest for a source agrees with the code of a request that the source is of. -/
theorem prepared_of_findsStaged (hg : g.IsStandard) (haccepted : Accepted g request harvester code)
    (hname : name ∈ request.names) {c : Constraint} (hc : Constraint.resolve name = .ok c) {d : Dispatch}
    {work : Location} (h : d.FindsStaged code (g.manifest (c.source request.kind)) work) :
    Prepared request code c d work := by
  obtain ⟨cs, hcs, hfiles, hnodup⟩ := haccepted.exists_files hg
  obtain ⟨-, kind, hlayout⟩ := hg
  have hmem : c ∈ cs := by
    have hok : Except.ok c ∈ cs.map Except.ok := hcs ▸ List.mem_map.2 ⟨name, hname, hc⟩
    obtain ⟨other, hother, he⟩ := List.mem_map.1 hok
    exact Except.ok.inj he ▸ hother
  have hsource : Segmented (c.source request.kind) := Constraint.segmented_of_resolve hc request.kind
  -- the directory of the entry point is that of a path of the code
  have hpath : PathFault.ofText? (g.layout.typesPath (c.source request.kind)) = none := by
    have hfile := (Layout.segmented_filePath hsource kind).faultless
    rw [← hlayout] at hfile
    exact (PathFault.ofText?_append.1 hfile).1
  have hview (rest : Location) : d.before.files.get? (work ++ rest) =
      stagedView code (g.manifest (c.source request.kind)) rest := congrFun h.view rest
  refine ⟨h.leads, ⟨(g.manifest (c.source request.kind)).text ++ "\n", g.layout.typesPath (c.source request.kind), ?_, ?_,
    ?_⟩, not_mem_packageName _, fun file hfile => ?_, fun file hfile he => ?_, h.unheld⟩
  · rw [hview, stagedView_manifest haccepted.stageable]
  · exact Manifest.isFor_text hsource.faultless (faultless_packageName hsource.faultless) hpath
  · have hfile := c.hasSource_fileLines 2
    refine ⟨Text.unlines (c.fileLines 2), ?_, hfile, (hfile.isLiteral_iff hc).2⟩
    rw [hfiles]
    exact List.mem_append_left _ (List.mem_map.2 ⟨c, hmem, rfl⟩)
  · rw [hview, stagedView_file haccepted.stageable h.prefixFree hnodup _ hfile]
  · exact haccepted.stageable.apart file hfile (he ▸ List.prefix_refl _)

/-- A request that asks the compiler to act was accepted, and the compiler finds the code and the manifest for one of its
names each time. -/
theorem Course.findsStaged {result : Except Failure (List Path)} (h : Course g request start ds result stop)
    (hs : start.Whole g.stagingRoot) (hp : request.outputDirectory.Written) (htools : ∀ d ∈ ds, d.LeavesTree)
    {d : Dispatch} (hd : d ∈ ds) (hcompiler : d.context.action.adapter = CommandKind.compiler.command) :
    ∃ code, Accepted g request .package code ∧ ∃ name ∈ request.names, ∃ c, Constraint.resolve name = .ok c ∧
      g.Compiles (c.source request.kind) d ∧
      ∃ work, d.FindsStaged code (g.manifest (c.source request.kind)) work := by
  have hturns : ∀ {output files harvester code ds result stop}, Opened request start output files →
      Accepted g request harvester code → request.language.isPrimary = false →
      Turns g code request harvester output request.names { start with files } ds result stop →
      (∀ e ∈ ds, e.LeavesTree) → d ∈ ds →
      ∃ code, Accepted g request .package code ∧ ∃ name ∈ request.names, ∃ c, Constraint.resolve name = .ok c ∧
        g.Compiles (c.source request.kind) d ∧
        ∃ work, d.FindsStaged code (g.manifest (c.source request.kind)) work := by
    intro output files harvester code ds result stop hopened haccepted hl h htools hd
    obtain ⟨-, rfl⟩ := haccepted.harvester_eq hl
    obtain ⟨place, rfl, hproper, -⟩ := hopened.exists_place hs.tree.sound hp
    have hfiles := (keeps_makeDirectories hproper.written).of_run hs.tree hopened.made
    exact ⟨code, haccepted,
      h.findsStaged (hs.with hfiles) haccepted.stageable hproper.written htools hd hcompiler⟩
  cases h with
  | stopped hopened haccepted hl h | unfinished hopened haccepted hl h | finished hopened haccepted hl h =>
    exact hturns hopened haccepted hl h htools hd
  | _ => cases hd

/-- Whenever a request asks the compiler to act, it does so for one of its names, and the directory is prepared for
that name, whatever the tools do as long as they leave a tree. -/
theorem run_get_prepared (hg : g.IsStandard) (hp : request.outputDirectory.Written) {s : Session}
    (hs : s.host.Whole g.stagingRoot) (htools : ∀ d ∈ s.dispatchesOf (g.get request), d.LeavesTree) :
    ∀ d ∈ s.dispatchesOf (g.get request), d.context.action.adapter = CommandKind.compiler.command →
      ∃ code, (∀ u, (g.emission request).run u = (.ok code, u)) ∧
        (∃ name ∈ request.names, ∃ c, Constraint.resolve name = .ok c ∧ g.Compiles (c.source request.kind) d) ∧
        ∀ name ∈ request.names, ∀ c, Constraint.resolve name = .ok c → g.Compiles (c.source request.kind) d →
          ∃ work, Prepared request code c d work := by
  obtain ⟨ds, result, t, hrun, hdispatches, hcourse⟩ := run_get_course hg request s
  rw [Session.dispatchesOf_eq hrun hdispatches] at htools ⊢
  intro d hd hcompiler
  obtain ⟨code, haccepted, name, hname, c, hc, hcompiles, work, hfinds⟩ :=
    hcourse.findsStaged hs hp htools hd hcompiler
  refine ⟨code, haccepted.emission, ⟨name, hname, c, hc, hcompiles⟩, fun other hother c' hc' hcompiles' => ?_⟩
  rw [hcompiles.source_eq hcompiles'] at hfinds
  exact ⟨work, prepared_of_findsStaged hg haccepted hother hc' hfinds⟩

/-- A request for a module in Python. -/
def moduleRequest : Request :=
  { language := .python, outputDirectory := .fromRoot ["out"], names := ["org/mod@~> 1.0"], kind := .module }

/-- The tools of the request for a module are the compiler and the packager, and leave a tree. -/
theorem leavesTree_stocked :
    ((stocked.dispatchesOf (({} : Getter).get moduleRequest)).map (·.context.action.adapter) =
        [CommandKind.compiler.command, CommandKind.packager.command]) ∧
      ∀ d ∈ stocked.dispatchesOf (({} : Getter).get moduleRequest), d.LeavesTree := by
  have hshape : ((stocked.dispatchesOf (({} : Getter).get moduleRequest)).map (·.context.action.adapter) =
        [CommandKind.compiler.command, CommandKind.packager.command]) ∧
      (stocked.dispatchesOf (({} : Getter).get moduleRequest)).all fun d =>
        d.after.files.isSound = true ∧ (d.after.files.entries.map (·.1)).Nodup ∧
          (∀ entry ∈ d.after.files.entries, ¬isNameless entry.1) ∧ d.after.temporary = d.before.temporary := by
    decide +kernel
  refine ⟨hshape.1, fun d hd => ?_⟩
  have hall := List.all_eq_true.1 hshape.2 d hd
  simp only [decide_eq_true_eq] at hall
  obtain ⟨hsound, honce, hnamed, htemporary⟩ := hall
  exact ⟨fun _ => ⟨sound_of_isSound hsound, honce, hnamed⟩, htemporary⟩

/-- The directory of the bare host is prepared for the module when the compiler is asked to act. -/
theorem run_get_prepared_module :
    ∃ d c code work, d ∈ stocked.dispatchesOf (({} : Getter).get moduleRequest) ∧
      Constraint.resolve "org/mod@~> 1.0" = .ok c ∧ ({} : Getter).Compiles (c.source .module) d ∧
      Prepared moduleRequest code c d work := by
  obtain ⟨hadapters, htools⟩ := leavesTree_stocked
  obtain ⟨d, rest, hdispatches, hcompiler, -⟩ := List.map_eq_cons_iff.1 hadapters
  have hd : d ∈ stocked.dispatchesOf (({} : Getter).get moduleRequest) := hdispatches ▸ List.mem_cons_self
  have hwhole : stocked.host.Whole ({} : Getter).stagingRoot :=
    ⟨⟨RunOptions.sound_bareHost, by decide, by decide⟩, by decide⟩
  obtain ⟨code, -, ⟨name, hname, c, hc, hcompiles⟩, hprepared⟩ :=
    run_get_prepared isStandard_default (by decide : moduleRequest.outputDirectory.Written) hwhole htools d hd hcompiler
  obtain rfl : name = "org/mod@~> 1.0" := List.mem_singleton.1 hname
  obtain ⟨work, hwork⟩ := hprepared _ hname c hc hcompiles
  exact ⟨d, c, code, work, hd, hc, hcompiles, hwork⟩

end Getter

end ProviderBindings
