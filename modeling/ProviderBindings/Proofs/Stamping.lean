import ProviderBindings.Proofs.Courses
import ProviderBindings.Proofs.FileSystem.Orderly

/-!
# What requests fail with

A request fails with an error of generation and with nothing else, whatever the tools do, as long as the
staging root can be said and trees stay grounded. Every step of a course is looked at once: the operations on
files are orderly, so that an error of the operating system is what goes wrong, and the stage that the step
is in makes it an error of generation. `Stamped` lists what can come out, with the name it is about.
-/

namespace ProviderBindings

open FileSystem

/-! ## Resolving in grounded trees -/

namespace FileSystem

variable {fs t : FileSystem}

/-- In a grounded tree, what a path resolves to can be said when the path can. -/
theorem Grounded.sayable_resolve (h : fs.Grounded) {p : Path} (hp : p.Sayable)
    (hstart : p.isAbsolute ∨ isGone fs.workingDirectory = false) : (fs.resolve p).Sayable := by
  have hroot : Proper [] := by
    intro name hname
    cases hname
  have hhere : Proper (if p.isAbsolute then [] else fs.workingDirectory) ∧
      ∀ name ∈ (if p.isAbsolute then [] else fs.workingDirectory : Location),
        PathFault.ofText? name = none := by
    split
    · exact ⟨hroot, fun name hname => by cases hname⟩
    · next hrelative =>
      exact ⟨h.working.proper (hstart.resolve_left hrelative), h.working.faultless⟩
  constructor
  · intro name hname
    exact (proper_resolveFrom hhere.1 (fun n hn => (hp.written n hn).2.2) name hname).1
  · refine forall_mem_resolveFrom hhere.2 hp.faultless fun hlink name hname => ?_
    exact PathFault.ofText?_of_mem_split (h.faultless_link hlink) hname

/-- In a grounded tree a path that resolves does so to one that can be said. -/
theorem Grounded.sayable_of_run_resolve {start host : Host} (h : start.files.Grounded) {p path : Path}
    (hp : p.Written) (hresolve : (Host.resolve p).run start = (.ok path, host)) : path.Sayable := by
  obtain ⟨-, hfault, hstart, rfl, -⟩ := run_resolve_ok_iff.1 hresolve
  exact h.sayable_resolve ⟨hp, fun name hname => List.findSome?_eq_none_iff.1 hfault name hname⟩ hstart

/-- In a grounded tree a path that leads to a directory resolves to the path from the root to there, which can
be said. -/
theorem Grounded.run_resolve (host : Host) (h : host.files.Grounded) {p : Path} (hp : p.Sayable)
    (hstart : p.isAbsolute ∨ isGone host.files.workingDirectory = false) {place : Location}
    (hl : host.files.locate .follow p = .ok place) (hd : host.files.get? place = some .directory) :
    (Host.resolve p).run host = (.ok (.fromRoot place), host) ∧ (Path.fromRoot place).Sayable := by
  obtain ⟨hup, hfault⟩ := h.locate hp hl
  have hproper : Proper place := h.proper_locate hp.written hstart hl
  have hroot : host.files.Rooted place := by
    intro top ht
    by_cases he : top = place
    · rw [he, hd]
    · exact hup (isPrefix_dropLast ht he)
  refine ⟨run_resolve_ok_iff.2 ⟨rfl, hp.nameFault?, hstart, (resolve_eq hl).symm,
    hroot.isEndless_eq_false hproper⟩, hproper.written, hfault⟩

end FileSystem

/-! ## Steps on steady hosts -/

/-- An orderly operation leaves a grounded tree. -/
theorem FileSystem.Orderly.grounded {α : Type} {work : FileAction α} (hw : Orderly work)
    {fs t : FileSystem} (h : fs.Grounded) {result : Except FileFailure α}
    (hrun : work.run fs = (result, t)) : t.Grounded := by
  have hsettled := (hw fs h).grounded
  rwa [hrun] at hsettled

/-- An orderly operation fails with an error of the operating system. -/
theorem FileSystem.Orderly.system {α : Type} {work : FileAction α} (hw : Orderly work)
    {fs t : FileSystem} (h : fs.Grounded) {failure : FileFailure}
    (hrun : work.run fs = (.error failure, t)) : ∃ e, failure = .system e := by
  have hsettled := (hw fs h).system
  rw [hrun] at hsettled
  exact hsettled failure rfl

/-- Whether the tree of a host is grounded, and the path of its staging root can be said. -/
structure Host.Steady (parent : Option Path) (host : Host) : Prop where
  /-- The tree is grounded. -/
  grounded : host.files.Grounded
  /-- The path of the staging root can be said. -/
  root : (parent.getD host.temporary).Sayable

variable {parent : Option Path} {host host' : Host}

/-- A host with another tree that is grounded is steady as well. -/
theorem Host.Steady.with (h : host.Steady parent) {files : FileSystem} (hf : files.Grounded) :
    ({ host with files } : Host).Steady parent :=
  ⟨hf, h.root⟩

/-- A host is steady after notices were left in the log. -/
theorem Noted.steady (h : Noted host host') (hs : host.Steady parent) : host'.Steady parent := by
  obtain ⟨line, hline⟩ := h.files
  refine ⟨?_, ?_⟩
  · rw [hline]
    exact hs.grounded.writeHeld line
  · rw [h.temporary]
    exact hs.root

/-- Whether a tool keeps the tree grounded and the directory for temporary files in place. -/
structure Dispatch.Tame (d : Dispatch) : Prop where
  /-- A grounded tree stays grounded. -/
  grounded : d.before.files.Grounded → d.after.files.Grounded
  /-- Temporary files go where they went. -/
  temporary : d.after.temporary = d.before.temporary

/-- A tool that leaves all entries and the working directory as they are is tame. -/
theorem Dispatch.tame_of_entries_eq {d : Dispatch}
    (he : d.after.files.entries = d.before.files.entries)
    (hw : d.after.files.workingDirectory = d.before.files.workingDirectory)
    (ht : d.after.temporary = d.before.temporary) : d.Tame := by
  refine ⟨fun hg => ⟨fun {top} htop => ?_, hw ▸ hg.working, fun hlink => ?_⟩, ht⟩
  · rw [hw] at htop
    have hdirectory : d.before.files.get? top = some .directory := hg.rooted htop
    unfold get? at hdirectory ⊢
    rwa [he]
  · rw [he] at hlink
    exact hg.links hlink

/-- A host is steady after a tame tool. -/
theorem Dispatch.Tame.steady {d : Dispatch} (h : d.Tame) (hs : d.before.Steady parent) :
    d.after.Steady parent := by
  refine ⟨h.grounded hs.grounded, ?_⟩
  rw [h.temporary]
  exact hs.root

namespace Staging

variable {label : String}

/-- Whether asking for a staging directory leaves a steady host, and comes to a directory that is there or to an
error of the operating system. -/
structure Acquired (parent : Option Path) (result : Except Failure Path) (host : Host) : Prop where
  /-- The host is steady. -/
  steady : host.Steady parent
  /-- A failure is an error of the operating system. -/
  system : ∀ failure, result = .error failure → ∃ e, failure = .system e
  /-- A directory that was got is there, and can be said. -/
  ready : ∀ directory, result = .ok directory → directory.Sayable ∧
    ∃ place, host.files.locate .follow directory = .ok place ∧ host.files.get? place = some .directory

/-- An error of the operating system on a steady host is one such end. -/
theorem acquired_error (hs : host.Steady parent) (e : SystemError) :
    Acquired parent (.error (.system e)) host := by
  refine ⟨hs, fun failure he => ?_, fun _ he => nomatch he⟩
  exact ⟨e, (Except.error.inj he).symm⟩

/-- The staging root of a steady host is made in a grounded tree. -/
theorem RootMade.grounded {root : FileSystem} (h : RootMade parent host.files root) (hs : host.Steady parent) :
    root.Grounded := by
  cases parent with
  | none =>
    obtain rfl : root = host.files := h
    exact hs.grounded
  | some p => exact (orderly_makeDirectories (p := p) hs.root).grounded hs.grounded h

/-- The path of the next staging directory can be said. -/
theorem faultless_nextText (hlabel : '/' ∉ label.toList) (hfault : PathFault.ofText? label = none)
    (hs : host.Steady parent) (root : FileSystem) :
    PathFault.ofText? (nextText label parent host root) = none := by
  unfold nextText scratchText
  rcases Path.joinText_text hs.root.written (isName_scratchName hlabel _).1 with he | ⟨-, he⟩
  · rw [he]
    exact (hs.root.child (faultless_scratchName hfault _)).text
  · rw [he, PathFault.ofText?_append]
    exact ⟨by decide, faultless_scratchName hfault _⟩

/-- A staging directory that was made can be said, and its path leads to it; if none could be made, an error
of the operating system is why. The host is steady in either case. -/
theorem acquire_steady (hlabel : '/' ∉ label.toList) (hfault : PathFault.ofText? label = none)
    (hs : host.Steady parent) {result : Except Failure Path}
    (hrun : (acquire label parent).run host = (result, host')) : Acquired parent result host' := by
  cases acquires_of_run hrun with
  | @rootless p failure root hparent hroot =>
    have hp : p.Sayable := by
      have hsaid := hs.root
      rwa [hparent] at hsaid
    have horderly := orderly_makeDirectories hp
    obtain ⟨e, rfl⟩ := horderly.system hs.grounded hroot
    exact acquired_error (hs.with (horderly.grounded hs.grounded hroot)) e
  | @unmade root fs failure hroot hmake =>
    have horderly := orderly_makeDirectoryAt (faultless_nextText hlabel hfault hs root)
    have hgrounded := hroot.grounded hs
    obtain ⟨e, rfl⟩ := horderly.system hgrounded hmake
    exact acquired_error (hs.with (horderly.grounded hgrounded hmake)) e
  | @made root fs hroot hmake =>
    have hsaid := faultless_nextText hlabel hfault hs root
    have hfs : fs.Grounded := (orderly_makeDirectoryAt hsaid).grounded (hroot.grounded hs) hmake
    refine ⟨⟨hfs, hs.root⟩, fun _ he => (nomatch he), fun directory he => ?_⟩
    obtain rfl := Except.ok.inj he
    refine ⟨Path.sayable_ofString hsaid, ?_⟩
    obtain ⟨-, place, htext, hfree, rfl⟩ := run_makeDirectoryAt_ok_iff.1 hmake
    have hname := (isName_scratchName hlabel (host.staged + 1 + root.scratchOffset label
      (parent.getD host.temporary).text (host.staged + 1))).1
    have hkeep := locate_of_joinText hs.root.written hname htext
    obtain ⟨-, hfollow, hthere⟩ := locate_put_directory hkeep hfree
    refine ⟨place, ?_, hthere⟩
    unfold nextText scratchText
    rw [Path.ofString_joinText hs.root.written hname]
    exact hfollow

end Staging

namespace Harvester

/-- To clear a place is orderly. -/
theorem orderly_clearPlace {p : Path} (hp : p.Sayable) : Orderly (clearPlace p) := by
  refine (orderly_look _).bind fun there => ?_
  split
  · refine (orderly_look _).bind fun isDirectory => (orderly_look _).bind fun isLink => ?_
    split
    · exact orderly_removeTree hp
    · exact orderly_unlink hp
  · exact orderly_pure _

/-- To put something in the place of something else, along a path from the root, is orderly. -/
theorem orderly_replacePlace {source target : Path} (hs : source.Sayable) (ht : target.Sayable)
    (hroot : target.isAbsolute) : Orderly (replacePlace source target) :=
  (orderly_clearPlace ht).bind fun _ => (orderly_makeDirectories ht.parent).bind fun _ =>
    orderly_move hs ht hroot

/-- A harvest fails for a reason of its own, or with an error of the operating system where it looks for the
package; the host is steady in any case. -/
theorem harvest_steady {harvester : Harvester} {directory output : Path} {name : String}
    (hdirectory : directory.Sayable) (houtput : output.Sayable) (hroot : output.isAbsolute)
    (hname : PathFault.ofText? name = none) (hs : host.Steady parent) {result : Except Failure Path}
    (hrun : (harvester.harvest directory output name).run host = (result, host')) :
    host'.Steady parent ∧ ∀ failure, result = .error failure →
      (∃ fault, failure = .generation { cause := .harvest fault }) ∨ ∃ e, failure = .system e := by
  cases harvester with
  | direct =>
    cases hrun
    exact ⟨hs, fun failure he => .inl ⟨_, (Except.error.inj he).symm⟩⟩
  | package =>
    have hsource : (sourcePath directory name).Sayable := by
      unfold sourcePath
      exact (((hdirectory.child (by decide)).child (by decide)).child (by decide)).child hname
    have horderly := orderly_replacePlace hsource (houtput.child hname) (isAbsolute_child hroot name)
    cases harvests_of_run hrun with
    | unseen => exact ⟨hs, fun failure he => .inr ⟨_, (Except.error.inj he).symm⟩⟩
    | missing => exact ⟨hs, fun failure he => .inl ⟨_, (Except.error.inj he).symm⟩⟩
    | unmoved _ hreplace =>
      -- the paths can be said, so that it is an error of the operating system that is told
      obtain ⟨e, rfl⟩ := horderly.system hs.grounded hreplace
      exact ⟨hs.with (horderly.grounded hs.grounded hreplace),
        fun failure he => .inl ⟨_, (Except.error.inj he).symm⟩⟩
    | moved _ hreplace hnoted =>
      exact ⟨hnoted.steady (hs.with (horderly.grounded hs.grounded hreplace)), fun failure he => nomatch he⟩

/-- The output directory is finished, or cannot be marked; the host is steady in any case. -/
theorem finalize_steady {harvester : Harvester} {output : Path} (houtput : output.Sayable)
    (hs : host.Steady parent) {result : Except Failure Unit}
    (hrun : (harvester.finalize output).run host = (result, host')) :
    host'.Steady parent ∧ ∀ failure, result = .error failure →
      ∃ fault, failure = .generation { cause := .harvest fault } := by
  cases harvester with
  | direct =>
    cases hrun
    exact ⟨hs, fun failure he => nomatch he⟩
  | package =>
    have horderly := orderly_writeText (houtput.child (s := markerName) (by decide)) ""
    cases finishes_of_run hrun with
    | unmarked hwrite =>
      obtain ⟨e, rfl⟩ := horderly.system hs.grounded hwrite
      exact ⟨hs, fun failure he => ⟨_, (Except.error.inj he).symm⟩⟩
    | marked hwrite =>
      exact ⟨hs.with (horderly.grounded hs.grounded hwrite), fun failure he => nomatch he⟩

end Harvester

/-! ## What work on a name fails with -/

/-- The code that is staged is saved in an orderly way. -/
theorem Emitter.Stageable.orderly_saveFiles {code : Emitter} (h : code.Stageable) {root : Path}
    (hroot : root.Sayable) : Orderly (code.saveFiles root) := by
  refine Orderly.mapM fun file hfile => ?_
  have htarget : (root.child file.1).Sayable := hroot.child (h.segmented file hfile).faultless
  unfold saveFile
  refine (orderly_makeDirectories htarget.parent).bind fun _ => ?_
  exact (orderly_writeText htarget file.2).bind fun _ => orderly_pure _

namespace Getter

variable {g : Getter} {request : Request} {code : Emitter} {language : Language}
  {harvester : Harvester} {output directory : Path} {name source : String} {start stop : Host}
  {ds : List Dispatch}

/-- What work on a name fails with, by the tools that were asked to act for it. -/
inductive NameStamped (g : Getter) (language : Language) (name source : String) :
    List Dispatch → GenerationError → Prop
  /-- The staging directory could not be made, or the code could not be saved there. -/
  | staging (reason : SystemError) : NameStamped g language name source []
      { cause := .system reason, target := name, stage := "stage" }
  /-- The manifest could not be written. -/
  | manifest (reason : SystemError) : NameStamped g language name source []
      { cause := .system reason, target := name, stage := "compile" }
  /-- The compiler failed. -/
  | compile {d} (hd : g.Compiles source d) (hfail : d.receipt.succeeded = false) :
      NameStamped g language name source [d]
        { cause := .toolFailed d.receipt, target := name, stage := "compile" }
  /-- The packager failed. -/
  | package {d e} (hd : g.Compiles source d) (hok : d.receipt.succeeded = true)
      (he : Packages source language d e) (hfail : e.receipt.succeeded = false) :
      NameStamped g language name source [d, e]
        { cause := .toolFailed e.receipt, target := name, stage := "package" }
  /-- The package could not be collected. -/
  | harvest {d e} (hd : g.Compiles source d) (hok : d.receipt.succeeded = true)
      (he : Packages source language d e) (hok' : e.receipt.succeeded = true) (fault : HarvestFault) :
      NameStamped g language name source [d, e]
        { cause := .harvest fault, target := name, stage := "harvest" }
  /-- It could not be seen whether there is a package. -/
  | unseen {d e} (hd : g.Compiles source d) (hok : d.receipt.succeeded = true)
      (he : Packages source language d e) (hok' : e.receipt.succeeded = true) (reason : SystemError) :
      NameStamped g language name source [d, e]
        { cause := .system reason, target := name, stage := "harvest" }

/-- What is built from what is staged leaves a steady host, and fails as work on a name does. -/
theorem Built.stamped {result : Except Failure Path}
    (h : Built g language harvester output name source start ds result stop)
    (hs : start.Steady parent) (htame : ∀ d ∈ ds, d.Tame)
    (hwhere : ∀ d ∈ ds, d.context.workingDirectory = directory.text) (hdirectory : directory.Sayable)
    (houtput : output.Sayable) (hroot : output.isAbsolute) (hsource : Segmented source) :
    stop.Steady parent ∧ ∀ failure, result = .error failure →
      ∃ e, failure = .generation e ∧ NameStamped g language name source ds e := by
  -- the two cases after the packager both end in the harvest
  have hharvest : ∀ {d e : Dispatch} {result : Except Failure Path} {host : Host}, ds = [d, e] →
      start = d.before → Packages source language d e →
      harvestAfter harvester output source e = (result, host) →
      host.Steady parent ∧ ∀ failure, result = .error failure →
        (∃ fault, failure = .generation { cause := .harvest fault }) ∨ ∃ e, failure = .system e := by
    intro d e result host hds hstart he hrun
    subst hds hstart
    unfold harvestAfter at hrun
    rw [hwhere e (by simp), Path.ofString_text hdirectory.written] at hrun
    have hmiddle : d.after.Steady parent := (htame d (by simp)).steady hs
    rw [← he.before] at hmiddle
    exact Harvester.harvest_steady hdirectory houtput hroot hsource.importable.faultless
      ((htame e (by simp)).steady hmiddle) hrun
  cases h with
  | compileFailed hd hfail =>
    refine ⟨(htame _ (by simp)).steady hs, fun failure he => ⟨_, (Except.error.inj he).symm, ?_⟩⟩
    exact .compile hd hfail
  | @packageFailed d e hd hok he hfail =>
    have hmiddle : d.after.Steady parent := (htame d (by simp)).steady hs
    rw [← he.before] at hmiddle
    refine ⟨(htame e (by simp)).steady hmiddle,
      fun failure hf => ⟨_, (Except.error.inj hf).symm, ?_⟩⟩
    exact .package hd hok he hfail
  | @harvestFailed d e failure host hd hok he hok' hfail =>
    obtain ⟨hlast, hcause⟩ := hharvest rfl rfl he hfail
    refine ⟨hlast, fun other hf => ?_⟩
    obtain rfl := Except.error.inj hf
    rcases hcause failure rfl with ⟨fault, rfl⟩ | ⟨reason, rfl⟩
    · exact ⟨_, rfl, .harvest hd hok he hok' fault⟩
    · exact ⟨_, rfl, .unseen hd hok he hok' reason⟩
  | @harvested d e path host hd hok he hok' hdone =>
    exact ⟨(hharvest rfl rfl he hdone).1, fun failure hf => nomatch hf⟩

/-- What happens in a staging directory leaves a steady host, and fails as work on a name does. -/
theorem Staged.stamped {result : Except Failure Path}
    (h : Staged g code language harvester output name source directory start ds result stop)
    (hcode : code.Stageable) (hs : start.Steady parent) (htame : ∀ d ∈ ds, d.Tame)
    (hdirectory : directory.Sayable) {place : Location}
    (hplace : start.files.locate .follow directory = .ok place)
    (hthere : start.files.get? place = some .directory) (houtput : output.Sayable)
    (hroot : output.isAbsolute) (hsource : Segmented source) :
    stop.Steady parent ∧ ∀ failure, result = .error failure →
      ∃ e, failure = .generation e ∧ NameStamped g language name source ds e := by
  -- where the directory resolves, the code is saved at a path that can be said
  have hsaved : ∀ {root : Path}, (Host.resolve directory).run start = (.ok root, start) →
      root.Sayable := by
    intro root hresolve
    obtain ⟨-, -, hstart, -, -⟩ := run_resolve_ok_iff.1 hresolve
    obtain ⟨hrun, hsayable⟩ := hs.grounded.run_resolve _ hdirectory hstart hplace hthere
    have hsame := (outcome_eq_iff.1 (Eq.trans (Eq.symm hresolve) hrun)).1
    rwa [Except.ok.inj hsame]
  have hmanifest : Orderly (writeText (directory.child Manifest.fileName)
      ((g.manifest source).text ++ "\n")) :=
    orderly_writeText (hdirectory.child (s := Manifest.fileName) (by decide)) _
  cases h with
  | @unresolved failure hresolve =>
    refine ⟨hs, fun other he => ?_⟩
    obtain rfl := Except.error.inj he
    have hgone : failure = .system (.plain .notFound) := by
      by_cases hstart : directory.isAbsolute ∨ isGone start.files.workingDirectory = false
      · obtain ⟨hrun, -⟩ := hs.grounded.run_resolve _ hdirectory hstart hplace hthere
        have hsame := (outcome_eq_iff.1 (Eq.trans (Eq.symm hresolve) hrun)).1
        cases hsame
      · obtain ⟨-, ⟨fault, hfault, -⟩ | ⟨-, -, hfailure⟩ | ⟨-, hback, -⟩⟩ :=
          run_resolve_error hresolve
        · rw [hdirectory.nameFault?] at hfault
          cases hfault
        · exact hfailure
        · exact absurd hback hstart
    rw [hgone]
    exact ⟨_, rfl, .staging _⟩
  | @unsaved root failure files hresolve hsave =>
    have horderly := hcode.orderly_saveFiles (hsaved hresolve)
    obtain ⟨reason, rfl⟩ := horderly.system hs.grounded hsave
    refine ⟨hs.with (horderly.grounded hs.grounded hsave),
      fun other he => ⟨_, (Except.error.inj he).symm, ?_⟩⟩
    exact .staging reason
  | @unmanifested root paths saved failure files hresolve hsave hwrite =>
    have hmiddle := (hcode.orderly_saveFiles (hsaved hresolve)).grounded hs.grounded hsave
    obtain ⟨reason, rfl⟩ := hmanifest.system hmiddle hwrite
    refine ⟨hs.with (hmanifest.grounded hmiddle hwrite),
      fun other he => ⟨_, (Except.error.inj he).symm, ?_⟩⟩
    exact .manifest reason
  | @built root paths saved files ds result stop hresolve hsave hwrite hwhere hbuilt =>
    have hmiddle := (hcode.orderly_saveFiles (hsaved hresolve)).grounded hs.grounded hsave
    exact hbuilt.stamped (hs.with (hmanifest.grounded hmiddle hwrite)) htame hwhere hdirectory houtput
      hroot hsource

/-- The turn of a name leaves a steady host, and fails as work on a name does. -/
theorem Turn.stamped {result : Except Failure Path}
    (h : Turn g code language harvester output name source start ds result stop)
    (hcode : code.Stageable) (hs : start.Steady g.stagingRoot) (htame : ∀ d ∈ ds, d.Tame)
    (houtput : output.Sayable) (hroot : output.isAbsolute) (hsource : Segmented source) :
    stop.Steady g.stagingRoot ∧ ∀ failure, result = .error failure →
      ∃ e, failure = .generation e ∧ NameStamped g language name source ds e := by
  cases h with
  | unstaged hacquire =>
    have hacquired := Staging.acquire_steady (by decide) (by decide) hs hacquire
    refine ⟨hacquired.steady, fun other he => ?_⟩
    obtain rfl := Except.error.inj he
    obtain ⟨reason, rfl⟩ := hacquired.system _ rfl
    exact ⟨_, rfl, .staging reason⟩
  | @staged directory made ds result stop hacquire hstaged =>
    have hacquired := Staging.acquire_steady (by decide) (by decide) hs hacquire
    obtain ⟨hdirectory, place, hplace, hthere⟩ := hacquired.ready directory rfl
    obtain ⟨hlast, hcause⟩ := hstaged.stamped hcode hacquired.steady htame hdirectory hplace hthere houtput
      hroot hsource
    exact ⟨hlast.with ((orderly_removeTree hdirectory) stop.files hlast.grounded).grounded, hcause⟩

/-- What was built was compiled and packaged. -/
theorem Built.succeeded {path : Path}
    (h : Built g language harvester output name source start ds (.ok path) stop) :
    ∃ d e, ds = [d, e] ∧ g.Compiles source d ∧ d.receipt.succeeded = true ∧
      Packages source language d e ∧ e.receipt.succeeded = true := by
  cases h with
  | harvested hd hok he hok' _ => exact ⟨_, _, rfl, hd, hok, he, hok'⟩

/-- A name whose turn comes to its end was compiled and packaged. -/
theorem Turn.succeeded {path : Path}
    (h : Turn g code language harvester output name source start ds (.ok path) stop) :
    ∃ d e, ds = [d, e] ∧ g.Compiles source d ∧ d.receipt.succeeded = true ∧
      Packages source language d e ∧ e.receipt.succeeded = true := by
  cases h with
  | staged hacquire hstaged =>
    cases hstaged with
    | built hresolve hsave hmanifest hwhere hbuilt => exact hbuilt.succeeded

/-- Turns of names leave a steady host; if one fails, it does so as work on its name does, after the turns of
the names before it, each with two tools that succeeded. -/
theorem Turns.stamped {names : List String} {result : Except Failure (List Path)}
    (h : Turns g code request harvester output names start ds result stop)
    (hcode : code.Stageable) (hs : start.Steady g.stagingRoot) (htame : ∀ d ∈ ds, d.Tame)
    (houtput : output.Sayable) (hroot : output.isAbsolute) :
    stop.Steady g.stagingRoot ∧
      (∀ paths, result = .ok paths →
        ds.length = 2 * names.length ∧ ∀ d ∈ ds, d.receipt.succeeded = true) ∧
      ∀ failure, result = .error failure → ∃ k name c front last e, names[k]? = some name ∧
        Constraint.resolve name = .ok c ∧ ds = front ++ last ∧ front.length = 2 * k ∧
        (∀ d ∈ front, d.receipt.succeeded = true) ∧ failure = .generation e ∧
        NameStamped g request.language name (c.source request.kind) last e := by
  induction h with
  | done => exact ⟨hs, fun _ _ => ⟨rfl, by simp⟩, fun _ he => nomatch he⟩
  | @stopped name rest c start noted ds failure stop hc hnoted hturn =>
    obtain ⟨hlast, hcause⟩ := hturn.stamped hcode (hnoted.steady hs) htame houtput hroot
      (Constraint.segmented_of_resolve hc request.kind)
    refine ⟨hlast, (fun _ he => nomatch he), fun other he => ?_⟩
    obtain ⟨e, hfailure, hstamped⟩ := hcause other (congrArg _ (Except.error.inj he))
    exact ⟨0, name, c, [], ds, e, rfl, hc, rfl, rfl, by simp, hfailure, hstamped⟩
  | @passed name rest c start noted middle ds es path result stop hc hnoted hturn hrest ih =>
    obtain ⟨hmiddle, -⟩ := hturn.stamped hcode (hnoted.steady hs)
      (fun d hd => htame d (List.mem_append_left _ hd)) houtput hroot
      (Constraint.segmented_of_resolve hc request.kind)
    obtain ⟨hlast, hdone, hcause⟩ :=
      ih hmiddle fun d hd => htame d (List.mem_append_right _ hd)
    -- the first name asked two tools to act, and both succeeded, so that what is said of the rest moves by two
    obtain ⟨d, e, rfl, -, hok, -, hok'⟩ := hturn.succeeded
    have hgood : ∀ f ∈ [d, e], f.receipt.succeeded = true := by simp [hok, hok']
    refine ⟨hlast, fun paths he => ?_, fun failure he => ?_⟩
    · cases result with
      | error failure => cases he
      | ok others =>
        obtain ⟨hlength, hall⟩ := hdone others rfl
        refine ⟨?_, fun f hf => (List.mem_append.1 hf).elim (hgood f) (hall f)⟩
        simp only [List.length_append, List.length_cons, List.length_nil]
        omega
    · cases result with
      | ok others => cases he
      | error other =>
        obtain ⟨k, who, c', front, last, e', hk, hc', rfl, hlength, hall, hfailure, hstamped⟩ :=
          hcause failure he
        refine ⟨k + 1, who, c', [d, e] ++ front, last, e', hk, hc', ?_, ?_, ?_, hfailure, hstamped⟩
        · rw [List.append_assoc]
        · simp only [List.length_append, List.length_cons, List.length_nil]
          omega
        · exact fun f hf => (List.mem_append.1 hf).elim (hgood f) (hall f)

/-! ## What requests fail with -/

/-- What a request fails with, by the tools that were asked to act: the name an error is about and its
stage. -/
inductive Stamped (g : Getter) (request : Request) : List Dispatch → GenerationError → Prop
  /-- The language cannot be produced. -/
  | unsupported (h : Harvester.ofLanguage? request.language = none) :
      Stamped g request [] { cause := .unsupportedLanguage request.language.name }
  /-- The output directory could not be made. -/
  | output (reason : SystemError) :
      Stamped g request [] { cause := .system reason, stage := "output" }
  /-- A name, and none before it, was rejected. -/
  | resolve {k : Nat} {name : String} {fault : ResolutionFault} (hname : request.names[k]? = some name)
      (hbefore : checkCollisions (request.names.take k) request.language request.kind = .ok ())
      (h : checkCollisions (request.names.take (k + 1)) request.language request.kind =
        .error (.generation { cause := .resolution fault, target := name, stage := "resolve" })) :
      Stamped g request [] { cause := .resolution fault, target := name, stage := "resolve" }
  /-- The code could not be saved. -/
  | save (reason : SystemError) : Stamped g request [] { cause := .system reason, stage := "save" }
  /-- Work on a name failed, after all tools had succeeded for the names before it. -/
  | name {k : Nat} {name : String} {c : Constraint} {front last : List Dispatch} {e : GenerationError}
      (hname : request.names[k]? = some name) (hc : Constraint.resolve name = .ok c)
      (hlength : front.length = 2 * k) (hfront : ∀ d ∈ front, d.receipt.succeeded = true)
      (h : NameStamped g request.language name (c.source request.kind) last e) :
      Stamped g request (front ++ last) e
  /-- The output directory could not be finished, after all tools had succeeded. -/
  | marker {ds : List Dispatch} (hlength : ds.length = 2 * request.names.length)
      (hall : ∀ d ∈ ds, d.receipt.succeeded = true) (fault : HarvestFault) :
      Stamped g request ds { cause := .harvest fault, stage := "harvest" }

/-- The output directory of a request was resolved to a path that can be said, where a directory stands once
it was made. -/
theorem Opened.sayable {start : Host} {output : Path} {files : FileSystem}
    (h : Opened request start output files) (hg : start.files.Grounded)
    (hp : request.outputDirectory.Written) :
    output.Sayable ∧ output.isAbsolute ∧ files.Grounded ∧
      ∃ place, files.locate .follow output = .ok place ∧ files.get? place = some .directory := by
  have hsayable : output.Sayable := hg.sayable_of_run_resolve hp h.resolved
  obtain ⟨-, -, -, rfl, -⟩ := run_resolve_ok_iff.1 h.resolved
  refine ⟨hsayable, rfl, (orderly_makeDirectories hsayable).grounded hg h.made, ?_⟩
  -- the last directory on the way was made, or was there
  have hlast : ∀ {fs t : FileSystem},
      (makeDirectoryIfMissing (start.files.resolve request.outputDirectory)).run fs = (.ok (), t) →
      ∃ place, t.locate .follow (start.files.resolve request.outputDirectory) = .ok place ∧
        t.get? place = some .directory := by
    intro fs t hmade
    rcases run_makeDirectoryIfMissing_ok_iff.1 hmade with hnew | ⟨-, hthere, rfl⟩
    · obtain ⟨-, place, htext, hfree, rfl⟩ := run_makeDirectoryAt_ok_iff.1 hnew
      rw [locateText_text _ _ hsayable.written] at htext
      exact ⟨place, (locate_put_directory htext hfree).2⟩
    · obtain ⟨-, place, hplace⟩ := isDirectory_eq_true_iff.1 hthere
      exact ⟨place, hplace⟩
  rcases run_makeDirectories_ok_cases h.made with hone | ⟨-, u, -, hone⟩
  · exact hlast hone
  · exact hlast hone

/-- A host is steady once the output directory was made. -/
theorem Opened.steady {start : Host} {output : Path} {files : FileSystem}
    (h : Opened request start output files) (hs : start.Steady parent) (hp : request.outputDirectory.Written) :
    ({ start with files } : Host).Steady parent := by
  obtain ⟨-, -, hgrounded, -⟩ := h.sayable hs.grounded hp
  exact hs.with hgrounded

/-- The output directory of a request resolves again once it was made, to a path that can be said. -/
theorem Opened.exists_resolve {start : Host} {output : Path} {files : FileSystem}
    (h : Opened request start output files) (hg : start.files.Grounded)
    (hp : request.outputDirectory.Written) :
    ∃ root : Path, root.Sayable ∧
      (Host.resolve output).run { start with files } = (.ok root, { start with files }) := by
  obtain ⟨hsayable, habsolute, hgrounded, place, hplace, hthere⟩ := h.sayable hg hp
  obtain ⟨hrun, hsaid⟩ := Grounded.run_resolve { start with files } hgrounded hsayable (.inl habsolute) hplace hthere
  exact ⟨_, hsaid, hrun⟩

/-- What is staged is saved in an orderly way where the output directory resolved to. -/
theorem Opened.orderly_saveFiles {start : Host} {output root : Path} {files : FileSystem}
    (h : Opened request start output files) (hg : start.files.Grounded)
    (hp : request.outputDirectory.Written) (hcode : code.Stageable)
    (hroot : (Host.resolve output).run { start with files } = (.ok root, { start with files })) :
    Orderly (code.saveFiles root) := by
  obtain ⟨root', hsaid, hrun⟩ := h.exists_resolve hg hp
  rw [hroot] at hrun
  cases hrun
  exact hcode.orderly_saveFiles hsaid

/-- A request whose output directory resolves leaves a steady host, and ends well or in an error of
generation. -/
theorem Course.stamped {result : Except Failure (List Path)}
    (h : Course g request start ds result stop) (hs : start.Steady g.stagingRoot)
    (hp : request.outputDirectory.Written) (htame : ∀ d ∈ ds, d.Tame)
    {resolved : Path}
    (hresolve : (Host.resolve request.outputDirectory).run start = (.ok resolved, start)) :
    stop.Steady g.stagingRoot ∧
      (∀ paths, result = .ok paths → ∀ d ∈ ds, d.receipt.succeeded = true) ∧
      ∀ failure, result = .error failure → ∃ e, failure = .generation e ∧ Stamped g request ds e := by
  -- the output directory resolves, so of the ends of a course only those after it was made are left to look at
  cases h with
  | unresolved hlost =>
    have hsame := (outcome_eq_iff.1 (Eq.trans (Eq.symm hlost) hresolve)).1
    cases hsame
  | @unmade output failure files hopen hmake =>
    have horderly := orderly_makeDirectories (hs.grounded.sayable_of_run_resolve hp hopen)
    obtain ⟨reason, rfl⟩ := horderly.system hs.grounded hmake
    refine ⟨hs.with (horderly.grounded hs.grounded hmake), (fun _ he => nomatch he), fun other he => ?_⟩
    exact ⟨_, (Except.error.inj he).symm, .output reason⟩
  | @unsupported output files e hopened hlanguage =>
    refine ⟨hopened.steady hs hp, (fun _ he => nomatch he), fun other he => ⟨e, (Except.error.inj he).symm, ?_⟩⟩
    unfold Harvester.ofLanguage at hlanguage
    cases hharvester : Harvester.ofLanguage? request.language with
    | some harvester =>
      rw [hharvester] at hlanguage
      cases hlanguage
    | none =>
      rw [hharvester] at hlanguage
      cases hlanguage
      exact .unsupported hharvester
  | idle hopened hharvester hnone hnoted =>
    exact ⟨hnoted.steady (hopened.steady hs hp), fun _ _ => by simp, fun _ he => nomatch he⟩
  | @rejected output files harvester failure hopened hharvester hne hcheck =>
    refine ⟨hopened.steady hs hp, (fun _ he => nomatch he), fun other he => ?_⟩
    obtain rfl := Except.error.inj he
    obtain ⟨k, name, fault, hk, hbefore, hfails, rfl⟩ := checkCollisions_error hcheck
    exact ⟨_, rfl, .resolve hk hbefore hfails⟩
  | @lost output files harvester code failure hopened haccepted hl hroot =>
    obtain ⟨root, -, hrun⟩ := hopened.exists_resolve hs.grounded hp
    rw [hroot] at hrun
    cases hrun
  | @unsaved output files harvester code root failure saved hopened haccepted hl hroot hsave =>
    have hmade := hopened.steady hs hp
    have horderly := hopened.orderly_saveFiles hs.grounded hp haccepted.stageable hroot
    obtain ⟨reason, rfl⟩ := horderly.system hmade.grounded hsave
    refine ⟨hmade.with (horderly.grounded hmade.grounded hsave), (fun _ he => nomatch he), fun other he => ?_⟩
    exact ⟨_, (Except.error.inj he).symm, .save reason⟩
  | @saved output files harvester code root paths saved stop hopened haccepted hl hroot hsave
      hnoted =>
    have hmade := hopened.steady hs hp
    have horderly := hopened.orderly_saveFiles hs.grounded hp haccepted.stageable hroot
    have hsaved := hmade.with (horderly.grounded hmade.grounded hsave)
    exact ⟨hnoted.steady hsaved, fun _ _ => by simp, fun _ he => nomatch he⟩
  | stopped hopened haccepted hl hturns =>
    obtain ⟨hsayable, habsolute, -⟩ := hopened.sayable hs.grounded hp
    obtain ⟨hlast, -, hcause⟩ := hturns.stamped haccepted.stageable (hopened.steady hs hp) htame
      hsayable habsolute
    refine ⟨hlast, (fun _ he => nomatch he), fun other he => ?_⟩
    obtain ⟨k, name, c, front, last, e, hk, hc, rfl, hlength, hall, hfailure, hstamped⟩ :=
      hcause other (congrArg _ (Except.error.inj he))
    exact ⟨e, hfailure, .name hk hc hlength hall hstamped⟩
  | @unfinished output files harvester code ds paths middle failure stop hopened haccepted hl hturns
      hfinish =>
    obtain ⟨hsayable, habsolute, -⟩ := hopened.sayable hs.grounded hp
    obtain ⟨hmiddle, hdone, -⟩ := hturns.stamped haccepted.stageable (hopened.steady hs hp) htame hsayable
      habsolute
    obtain ⟨hlength, hall⟩ := hdone paths rfl
    obtain ⟨hlast, hcause⟩ := Harvester.finalize_steady hsayable hmiddle hfinish
    obtain ⟨fault, rfl⟩ := hcause failure rfl
    refine ⟨hlast, (fun _ he => nomatch he), fun other he => ?_⟩
    exact ⟨_, (Except.error.inj he).symm, .marker hlength hall fault⟩
  | @finished output files harvester code ds paths middle stop hopened haccepted hl hturns hfinish =>
    obtain ⟨hsayable, habsolute, -⟩ := hopened.sayable hs.grounded hp
    obtain ⟨hmiddle, hdone, -⟩ := hturns.stamped haccepted.stageable (hopened.steady hs hp) htame hsayable
      habsolute
    obtain ⟨hlast, -⟩ := Harvester.finalize_steady hsayable hmiddle hfinish
    exact ⟨hlast, fun _ _ => (hdone paths rfl).2, fun _ he => nomatch he⟩

/-- A request whose output directory resolves takes a course that ends well, with all its tools, or in an error
of generation that tells where it came up, whatever the tools do. -/
theorem run_get_stamped (hg : g.IsStandard) (hp : request.outputDirectory.Written) {s : Session}
    (hs : s.host.Steady g.stagingRoot)
    (hresolve : ∃ resolved, (Host.resolve request.outputDirectory).run s.host = (.ok resolved, s.host))
    (htame : ∀ d ∈ s.dispatchesOf (g.get request), d.Tame) :
    ∃ ds result t, (g.get request).run s = (result, t) ∧ t.dispatches = s.dispatches ++ ds ∧
      Course g request s.host ds result t.host ∧
      (∀ paths, result = .ok paths → ∀ d ∈ ds, d.receipt.succeeded = true) ∧
      ∀ failure, result = .error failure →
        ∃ e, failure = .generation e ∧ Stamped g request ds e := by
  obtain ⟨ds, result, t, hrun, hdispatches, hcourse⟩ := run_get_course hg request s
  obtain ⟨resolved, hresolved⟩ := hresolve
  rw [Session.dispatchesOf_eq hrun hdispatches] at htame
  obtain ⟨-, hgood, hbad⟩ := hcourse.stamped hs hp htame hresolved
  exact ⟨ds, result, t, hrun, hdispatches, hcourse, hgood, hbad⟩

/-- A tree with nothing but a directory for temporary files. -/
def bareTree : FileSystem := { entries := [(["tmp"], .directory)] }

/-- A session on that tree, in which no tool is registered. -/
def toolless : Session := { host := { files := bareTree, temporary := .fromRoot ["tmp"] } }

/-- A request for a provider in Python. -/
def pythonRequest : Request :=
  { language := .python, outputDirectory := .fromRoot ["out"], names := ["aws"] }

/-- The host without tools is steady. -/
theorem steady_toolless : toolless.host.Steady none := by
  refine ⟨⟨rooted_nil _, ⟨[], 0, rfl, by simp [Proper], by simp⟩, fun {location target} h => ?_⟩, ?_⟩
  · simp [toolless, bareTree] at h
  · refine ⟨fun name hname => ?_, fun name hname => ?_⟩
    · rw [show name = "tmp" from List.mem_singleton.1 hname]
      decide
    · rw [show name = "tmp" from List.mem_singleton.1 hname]
      decide

/-- The output directory of the request resolves to itself there. -/
theorem run_resolve_toolless : (Host.resolve pythonRequest.outputDirectory).run toolless.host =
    (.ok (.fromRoot ["out"]), toolless.host) :=
  run_resolve_ok_iff.2 ⟨rfl, by decide, .inl rfl, by decide +kernel, by decide +kernel⟩

/-- Where no tool is registered the compiler is asked in vain, and that is the error of the request. -/
theorem run_get_stamped_toolless :
    ∃ d e t, (({} : Getter).get pythonRequest).run toolless = (.error (.generation e), t) ∧
      t.dispatches = [d] ∧ Stamped {} pythonRequest [d] e := by
  have hshape : ((toolless.dispatchesOf (({} : Getter).get pythonRequest)).length = 1) ∧
      ((toolless.dispatchesOf (({} : Getter).get pythonRequest)).all fun d =>
        d.after.files.entries = d.before.files.entries ∧
          d.after.files.workingDirectory = d.before.files.workingDirectory ∧
          d.after.temporary = d.before.temporary) ∧
      ((({} : Getter).get pythonRequest).run toolless).1.toOption = none := by
    decide +kernel
  obtain ⟨hlength, hall, hfails⟩ := hshape
  have htame : ∀ d ∈ toolless.dispatchesOf (({} : Getter).get pythonRequest), d.Tame := by
    intro d hd
    have hsame := List.all_eq_true.1 hall d hd
    simp only [decide_eq_true_eq] at hsame
    obtain ⟨hentries, hworking, htemporary⟩ := hsame
    exact Dispatch.tame_of_entries_eq hentries hworking htemporary
  obtain ⟨ds, result, t, hrun, hdispatches, -, -, hbad⟩ :=
    run_get_stamped (⟨rfl, .provider, rfl⟩ : ({} : Getter).IsStandard)
      (by decide : pythonRequest.outputDirectory.Written) steady_toolless ⟨_, run_resolve_toolless⟩ htame
  rw [Session.dispatchesOf_eq hrun hdispatches] at hlength
  obtain ⟨d, rfl⟩ := List.length_eq_one_iff.1 hlength
  cases result with
  | ok paths =>
    rw [hrun] at hfails
    cases hfails
  | error failure =>
    obtain ⟨e, rfl, hstamped⟩ := hbad failure rfl
    exact ⟨d, e, t, hrun, hdispatches, hstamped⟩

/-- Whether an outcome is an error of generation. -/
def isGenerationError {α : Type} (outcome : Except Failure α × Session) : Bool :=
  match outcome.1 with
  | .error (.generation _) => true
  | _ => false

/-- A getter whose staging root cannot be said. -/
def unsaid : Getter := { stagingRoot := some (.ofString "a\x00b") }

/-- A request does not fail with errors of generation only, for every staging root: one that cannot be said ends it
with a failure that no stage has stamped. -/
theorem not_generation_of_resolves :
    ¬∀ (g : Getter) (request : Request) (s t : Session) (failure : Failure),
      g.IsStandard → request.outputDirectory.Written → s.host.files.Grounded →
      (∃ resolved, (Host.resolve request.outputDirectory).run s.host = (.ok resolved, s.host)) →
      (∀ d ∈ s.dispatchesOf (g.get request), d.Tame) →
      (g.get request).run s = (.error failure, t) → ∃ e, failure = .generation e := by
  intro hall
  have hshape : (toolless.dispatchesOf (unsaid.get pythonRequest)).length = 0 ∧
      ((unsaid.get pythonRequest).run toolless).1.toOption = none ∧
      isGenerationError ((unsaid.get pythonRequest).run toolless) = false := by
    decide +kernel
  obtain ⟨hlength, hfails, hother⟩ := hshape
  have htame : ∀ d ∈ toolless.dispatchesOf (unsaid.get pythonRequest), d.Tame := by
    rw [List.length_eq_zero_iff.1 hlength]
    simp
  cases hrun : (unsaid.get pythonRequest).run toolless with
  | mk result t =>
    rw [hrun] at hfails hother
    cases result with
    | ok paths => cases hfails
    | error failure =>
      obtain ⟨e, rfl⟩ := hall unsaid pythonRequest toolless t failure ⟨rfl, .provider, rfl⟩ (by decide)
        steady_toolless.grounded ⟨_, run_resolve_toolless⟩ htame hrun
      cases hother

end Getter

end ProviderBindings
