import ProviderBindings.Proofs.Separation

/-!
# The order in which tools are asked to act

The dispatches of a request whose code can be staged. Name after name the compiler is asked to act and then the
packager, up to the first that fails or the first package that cannot be harvested, and in no other way can
the names come to an end (`Traced`). The compiler finds its staged code and nothing else: what is there does not
depend on the other names, but for the code of them all, which is what the request would have saved for
TypeScript (`Dispatch.Finds`). That no name stands in the way of another is what a site is for: each turn
leaves it kept, so that the next name is staged as if it were the first (`Turn.traced`, `Turns.traced`).
-/

namespace ProviderBindings

open FileSystem

/-! ## Room for staging -/

/-- Whether code and its manifest can be staged in a directory with a name: the code can be saved there when the
directory is empty, and the path of the manifest is not too long. -/
structure CanStage (path : Path) (root : Location) (code : Emitter) (name : String) : Prop where
  /-- There is a tree with an empty directory of that name in which the code can be saved. -/
  saves : ∃ fs paths t, fs.Sound ∧ fs.IsEmptyDirectory (root ++ [name]) ∧
    (code.saveFiles (.fromRoot (root ++ [name]))).run fs = (.ok paths, t)
  /-- The path of the manifest is not too long. -/
  fits : (⟨path.anchor, path.names ++ [name] ++ [Manifest.fileName]⟩ : Path).text.utf8ByteSize ≤
    maxPathSize

namespace CanStage

variable {path : Path} {root : Location} {code : Emitter} {name : String}

/-- A directory that code can be saved into has a proper location, and its name is not too long. -/
theorem proper_short (h : CanStage path root code name) (hp : Proper [name]) :
    Proper root ∧ name.utf8ByteSize ≤ maxNameSize := by
  obtain ⟨fs, paths, t, hs, hempty, -⟩ := h.saves
  have hname : ¬isNameless (root ++ [name]) := by
    rw [isNameless_append (by simp)]
    exact hp.not_isNameless (by simp)
  have hthere : (fs.get? (root ++ [name])).isSome := by simp [hempty.1]
  exact ⟨(hs.proper hname hthere).of_isPrefix (List.prefix_append _ _), hs.short hname hthere _ (by simp)⟩

/-- The path of a directory that code can be staged in is not too long. -/
theorem pathFits (h : CanStage path root code name) :
    (⟨path.anchor, path.names ++ [name]⟩ : Path).text.utf8ByteSize ≤ maxPathSize :=
  (Path.text_le_text_concat (by simp) Manifest.fileName).trans h.fits

/-- Whether code and its manifest can be staged in a directory that is put into a tree. -/
def isAmple (path : Path) (root : Location) (code : Emitter) (fs : FileSystem) (name : String) : Bool :=
  let made := fs.put (root ++ [name]) .directory
  made.isSound && made.get? (root ++ [name]) == some .directory && made.isEmptyBelow (root ++ [name]) &&
    ((code.saveFiles (.fromRoot (root ++ [name]))).run made).1.toOption.isSome &&
    (⟨path.anchor, path.names ++ [name] ++ [Manifest.fileName]⟩ : Path).text.utf8ByteSize ≤ maxPathSize

/-- Code can be staged where it can in a directory that is put into a tree. -/
theorem of_isAmple {fs : FileSystem} (h : isAmple path root code fs name = true) :
    CanStage path root code name := by
  simp only [isAmple, Bool.and_eq_true, beq_iff_eq, decide_eq_true_eq] at h
  obtain ⟨⟨⟨⟨hsound, hthere⟩, hempty⟩, hsaves⟩, hfits⟩ := h
  refine ⟨?_, hfits⟩
  rcases hrun : (code.saveFiles (.fromRoot (root ++ [name]))).run (fs.put (root ++ [name]) .directory) with
    ⟨failure | paths, t⟩
  · rw [hrun] at hsaves
    cases hsaves
  · exact ⟨_, paths, t, sound_of_isSound hsound, isEmptyDirectory_of_isEmptyBelow hthere hempty, hrun⟩

end CanStage

/-! ## What a tool finds -/

/-- Whether a tool that is asked to act finds a view in the directory it is to work in. -/
def Dispatch.Finds (c : Dispatch) (view : View) : Prop :=
  ∃ work, c.before.files.locate .follow (.ofString c.context.workingDirectory) = .ok work ∧
    c.before.files.view work = view

namespace Getter

variable {g : Getter} {request : Request} {code : Emitter} {S : Site} {root : FileSystem}
  {start stop : Host} {ds : List Dispatch}

/-- The dispatches that names come to, one after another up to the first name that fails. A name is built as far as
its tools succeed, and the first of them, the compiler, finds what is staged for the name. -/
inductive Traced (g : Getter) (code : Emitter) (request : Request) (harvester : Harvester)
    (output : Path) : List String → List Dispatch → Except Failure (List Path) → Prop
  | done : Traced g code request harvester output [] [] (.ok [])
  | stopped {name rest c start ds failure stop} (hc : Constraint.resolve name = .ok c)
      (hbuilt : Built g request.language harvester output name (c.source request.kind) start ds
        (.error failure) stop)
      (hfinds : ∀ d ∈ ds.head?, d.Finds (stagedView code (g.manifest (c.source request.kind)))) :
      Traced g code request harvester output (name :: rest) ds (.error failure)
  | passed {name rest c start ds path stop es result} (hc : Constraint.resolve name = .ok c)
      (hbuilt : Built g request.language harvester output name (c.source request.kind) start ds (.ok path)
        stop)
      (hfinds : ∀ d ∈ ds.head?, d.Finds (stagedView code (g.manifest (c.source request.kind))))
      (hrest : Traced g code request harvester output rest es result) :
      Traced g code request harvester output (name :: rest) (ds ++ es) (result.map (path :: ·))

/-- All tools are asked to act for names that all come to their ends, and all succeed. -/
theorem Traced.succeeded {harvester : Harvester} {output : Path} {names : List String}
    {result : Except Failure (List Path)} (h : Traced g code request harvester output names ds result)
    {paths : List Path} (hok : result = .ok paths) :
    ds.length = 2 * names.length ∧ ∀ d ∈ ds, d.receipt.succeeded = true := by
  induction h generalizing paths with
  | done => simp
  | stopped => cases hok
  | @passed name rest c start ds path stop es result hc hbuilt hfinds hrest ih =>
    cases result with
    | error failure => cases hok
    | ok others =>
      obtain ⟨hlength, hgood⟩ := ih rfl
      cases hbuilt with
      | @harvested d e _ _ hd hdok he heok hharvest =>
        refine ⟨?_, ?_⟩
        · simp only [List.length_append, List.length_cons, List.length_nil, hlength]
          omega
        · simpa using ⟨hdok, heok, hgood⟩

/-- The first tool that is asked to act for what is staged finds it as it was staged. -/
theorem Built.before_head {language : Language} {harvester : Harvester} {output : Path} {name source : String}
    {result : Except Failure Path} (h : Built g language harvester output name source start ds result stop) :
    ∀ c ∈ ds.head?, c.before = start := by
  intro c hc
  cases h <;> cases hc <;> rfl

/-- What is staged in a directory that is in use and empty, and in which code can be staged, is built: neither saving
the code nor writing the manifest stops it. -/
theorem Staged.traced {d : S.Desk} {name source : String} {result : Except Failure Path}
    (h : Staged g code .python .package (.fromRoot S.output) name source d.path start ds result stop)
    (hlaid : d.Laid root start.files) (hcan : CanStage S.path S.root code d.name) (hcode : code.Stageable)
    (hworking : S.path.isAbsolute ∨ isGone start.files.workingDirectory = false) :
    ∃ first last, Built g .python .package (.fromRoot S.output) name source first ds result last ∧
      ∀ c ∈ ds.head?, c.Finds (stagedView code (g.manifest source)) := by
  have hbusy : d.Busy start.files := hlaid.busy
  have hresolved : (Host.resolve d.path).run start = (.ok (.fromRoot d.place), start) := hbusy.run_resolve hworking
  have hplace : ∀ {place : Path} {host : Host}, (Host.resolve d.path).run start = (.ok place, host) →
      place = .fromRoot d.place := by
    intro place host hresolve
    exact Except.ok.inj (Prod.ext_iff.1 (hresolve.symm.trans hresolved)).1
  -- the code can be saved there as anywhere else where an empty directory is
  obtain ⟨fs, paths, t, hs, hempty, hsaves⟩ := hcan.saves
  obtain ⟨saved, hsaved⟩ := run_saveFiles_of_isEmptyDirectory hs hbusy.kept.sound d.proper_place hempty
    hlaid.empty hcode.segmented hsaves
  cases h with
  | unresolved hresolve =>
    have hboth := hresolved.symm.trans hresolve
    cases hboth
  | unsaved hresolve hsave =>
    obtain rfl := hplace hresolve
    have hboth := hsaved.symm.trans hsave
    cases hboth
  | @unmanifested place paths' saved' failure files' hresolve hsave hwrite =>
    obtain rfl := hplace hresolve
    obtain ⟨honly, hview⟩ := hbusy.of_saveFiles hlaid.empty hcode.segmented hsave
    have hfree : saved'.view d.place [Manifest.fileName] ≠ some .directory := by
      rw [hview, View.writeAll_of_apart hcode.apart]
      simp [View.empty, isNameless, Manifest.fileName]
    have hmanifestFits : (d.path.child Manifest.fileName).text.utf8ByteSize ≤ maxPathSize := by
      rw [d.manifestPath_eq]
      exact hcan.fits
    obtain ⟨written, hwritten⟩ := (hbusy.onlyBelow honly).exists_writeManifest honly.unlinked
      hmanifestFits hfree ((g.manifest source).text ++ "\n")
    have hboth := hwritten.symm.trans hwrite
    cases hboth
  | @built place paths' saved' files' ds result stop hresolve hsave hmanifest hwhere hbuilt =>
    obtain rfl := hplace hresolve
    obtain ⟨honly, hview⟩ := hbusy.of_saveFiles hlaid.empty hcode.segmented hsave
    have hbusy' := hbusy.onlyBelow honly
    obtain ⟨honly', hview'⟩ := hbusy'.of_writeManifest honly.unlinked hmanifest
    refine ⟨_, _, hbuilt, fun c hc => ?_⟩
    have hbefore : c.before.files = files' := by
      rw [hbuilt.before_head c hc]
    have hin : c.context.workingDirectory = d.path.text := hwhere c (List.mem_of_mem_head? hc)
    refine ⟨d.place, ?_, ?_⟩
    · rw [hbefore, hin, Path.ofString_text d.written_path]
      exact (hbusy'.onlyBelow honly').locate
    · rw [hbefore, hview', hview]
      rfl

/-- Whether code can be staged on a site for a number of names, in directories with the numbers after one that was
given, of which as many may be taken as the site has entries. -/
def Spacious (S : Site) (code : Emitter) (given count : Nat) : Prop :=
  ∀ n, given < n → n ≤ given + count + S.base.entries.length →
    CanStage S.path S.root code (scratchName Site.label n)

/-- Where code can be staged for a name and others, it can be for the name, whatever number it gets. -/
theorem Spacious.now {given count : Nat} (h : Spacious S code given (count + 1)) {k : Nat}
    (hk : k ≤ S.base.entries.length) : CanStage S.path S.root code (scratchName Site.label (given + 1 + k)) :=
  h _ (by omega) (by omega)

/-- Where code can be staged for a name and others, it can be for the others after the name. -/
theorem Spacious.later {given later count : Nat} (h : Spacious S code given (count + 1)) (hle : given ≤ later)
    (hlt : later ≤ given + 1) : Spacious S code later count :=
  fun n hn hbound => h n (by omega) (by omega)

/-- On a site that is ready and has room, a name is built from what is staged for it alone. -/
theorem Turn.traced {noted : Host} {name source : String} {result : Except Failure Path}
    (h : Turn g code .python .package (.fromRoot S.output) name source noted ds result stop)
    (hnoted : Noted start noted) (hcode : code.Stageable) (hready : S.Ready g.stagingRoot start.files root)
    (hp : S.path = g.stagingRoot.getD start.temporary)
    (hstart : S.path.isAbsolute ∨
      isGone S.base.workingDirectory = false ∧ ¬Below S.output S.base.workingDirectory)
    {count : Nat} (hroom : Spacious S code start.staged (count + 1)) :
    ∃ first last, Built g .python .package (.fromRoot S.output) name source first ds result last ∧
      ∀ d ∈ ds.head?, d.Finds (stagedView code (g.manifest source)) := by
  obtain ⟨line, hline⟩ := hnoted.files
  obtain ⟨root', hready', hsame⟩ := hready.writeHeld hp line
  rw [← hline] at hready'
  have hp' : S.path = g.stagingRoot.getD noted.temporary := by rw [hp, hnoted.temporary]
  have hfits : ∀ k ≤ S.base.entries.length,
      (scratchName Site.label (noted.staged + 1 + k)).utf8ByteSize ≤ maxNameSize ∧
        (⟨S.path.anchor, S.path.names ++ [scratchName Site.label (noted.staged + 1 + k)]⟩ :
          Path).text.utf8ByteSize ≤ maxPathSize := by
    intro k hk
    rw [hnoted.staged]
    exact ⟨((hroom.now hk).proper_short (Site.proper_scratchName _)).2, (hroom.now hk).pathFits⟩
  obtain ⟨d, files, k, hk, hname, hlaid, hacquired⟩ := hready'.exists_acquire hp' hfits
  have hcan : CanStage S.path S.root code d.name := by
    rw [hname, hnoted.staged]
    exact hroom.now hk
  -- a staging directory can be made, so the turn does not end before it is
  cases h with
  | unstaged hacquire =>
    have hboth := hacquired.symm.trans hacquire
    cases hboth
  | staged hacquire hstaged =>
    have hboth := hacquired.symm.trans hacquire
    cases hboth
    refine hstaged.traced hlaid hcan hcode ?_
    rcases hstart with habsolute | ⟨hgone, hbelow⟩
    · exact .inl habsolute
    · refine (hlaid.busy.kept.working_eq hbelow).imp_right fun he => ?_
      rw [he, hgone]

/-- On a site that is ready and has room for all of them, names come to their dispatches one after another, and each
is built from what is staged for it alone. -/
theorem Turns.traced {names : List String} {result : Except Failure (List Path)}
    (h : Turns g code request .package (.fromRoot S.output) names start ds result stop)
    (hpython : request.language = .python) (hcode : code.Stageable)
    (hready : S.Ready g.stagingRoot start.files root) (hp : S.path = g.stagingRoot.getD start.temporary)
    (hstart : S.path.isAbsolute ∨
      isGone S.base.workingDirectory = false ∧ ¬Below S.output S.base.workingDirectory)
    (hroom : Spacious S code start.staged names.length) (hneat : Dispatch.Neat ds) :
    Traced g code request .package (.fromRoot S.output) names ds result := by
  induction h generalizing root with
  | done => exact .done
  | stopped hc hnoted hturn =>
    rw [hpython] at hturn
    obtain ⟨first, last, hbuilt, hfinds⟩ := hturn.traced hnoted hcode hready hp hstart hroom
    rw [← hpython] at hbuilt
    exact .stopped hc hbuilt hfinds
  | @passed name rest c start noted middle ds es path result stop hc hnoted hturn hrest ih =>
    rw [hpython] at hturn
    obtain ⟨first, last, hbuilt, hfinds⟩ := hturn.traced hnoted hcode hready hp hstart hroom
    rw [← hpython] at hbuilt
    -- the site was kept, so that the others are staged on it as well
    have hleft := hturn.on_site_of_noted hnoted hcode.segmented
      (Constraint.segmented_of_resolve hc request.kind) hready hp hneat.left
    have hp' : S.path = g.stagingRoot.getD middle.temporary := by rw [hp, hleft.temporary]
    have hcount := hleft.staged
    have hlater : Spacious S code middle.staged rest.length := hroom.later (by omega) (by omega)
    exact .passed hc hbuilt hfinds (ih (hleft.kept.ready hp') hp' hlater hneat.right)

/-! ## Requests whose code can be staged -/

/-- Whether there is room to stage code for a number of names: the staging root is there once it was made, code can be
staged in it whatever number the staging directory gets, and it does not go away with what is in the output
directory. -/
structure HasRoom (g : Getter) (start : Host) (files : FileSystem) (output : Location) (code : Emitter)
    (count : Nat) (place : Location) : Prop where
  /-- The staging root can be made. -/
  made : Staging.RootMade g.stagingRoot files (Staging.rooted g.stagingRoot files)
  /-- Then it is a directory. -/
  there : (Staging.rooted g.stagingRoot files).isDirectory (g.stagingRoot.getD start.temporary) = .ok true
  /-- Its path leads to the place. -/
  leads : (Staging.rooted g.stagingRoot files).locate .follow (g.stagingRoot.getD start.temporary) = .ok place
  /-- Code can be staged there under each number that a staging directory may get. -/
  room : ∀ n, start.staged < n →
    n ≤ start.staged + count + (Staging.rooted g.stagingRoot files).entries.length →
    CanStage (g.stagingRoot.getD start.temporary) place code (scratchName Site.label n)
  /-- Its path starts at the root, or in a working directory that is there and does not go away with what is in the
  output directory. -/
  stays : (g.stagingRoot.getD start.temporary).isAbsolute ∨
    isGone start.files.workingDirectory = false ∧ ¬Below output start.files.workingDirectory

/-- Where there is room for the code of names that are accepted, their turns are dispatches in order. -/
theorem HasRoom.traced {files : FileSystem} {place rootPlace : Location} {names : List String}
    {result : Except Failure (List Path)} (hroom : g.HasRoom start files place code names.length rootPlace)
    (hturns : Turns g code request .package (.fromRoot place) names { start with files } ds result stop)
    (hne : names ≠ []) (hpython : request.language = .python) (hcode : code.Stageable)
    (hopened : Opened request start (.fromRoot place) files) (hapart : g.Apart request start)
    (hs : start.files.Sound) (hp : request.outputDirectory.Written)
    (hroot : (g.stagingRoot.getD start.temporary).Written) (hneat : Dispatch.Neat ds) :
    Traced g code request .package (.fromRoot place) names ds result := by
  obtain ⟨hfaultless, other, hother, hthere⟩ := isDirectory_eq_true_iff.1 hroom.there
  obtain rfl : rootPlace = other := Except.ok.inj (hroom.leads.symm.trans hother)
  have hproper : Proper rootPlace := by
    have hcount := List.length_pos_of_ne_nil hne
    exact ((hroom.room (start.staged + 1) (by omega) (by omega)).proper_short (Site.proper_scratchName _)).1
  obtain ⟨hsound, hrootApart⟩ := hapart.rootApart hs hp hroot hopened hroom.made hroom.leads hthere hproper
    hfaultless
  have hentries : hrootApart.site.base.entries.length ≤ (Staging.rooted g.stagingRoot files).entries.length :=
    List.length_filter_le _ _
  -- neither making the directories nor clearing the output directory moves the working directory
  have hworking : ¬Below place start.files.workingDirectory →
      hrootApart.site.base.workingDirectory = start.files.workingDirectory := by
    intro hbelow
    obtain ⟨_, -, -, -, hgrown, -⟩ := hapart.opened hs hp hopened
    have hgrown' : Grown files (Staging.rooted g.stagingRoot files) :=
      Staging.grown_rooted hsound (Staging.written_of_getD hroot)
    have hsame : (Staging.rooted g.stagingRoot files).workingDirectory = start.files.workingDirectory :=
      hgrown'.working.trans hgrown.working
    rw [← hsame] at hbelow ⊢
    exact workingDirectory_clear_of_not_below hbelow
  refine Turns.traced (S := hrootApart.site) hturns hpython hcode ⟨hsound, hroom.made, hrootApart.kept⟩ rfl
    (hroom.stays.imp_right fun h => ?_) (fun n hn hle => ?_) hneat
  · rw [hworking h.2]
    exact h
  · refine hroom.room n hn (hle.trans ?_)
    show start.staged + names.length + hrootApart.site.base.entries.length ≤ _
    omega

/-- What a request that is saved as it is leaves in an output directory that was empty: what its code looks like
when it is saved into an empty directory. -/
theorem view_of_run_get_saved {files : FileSystem} {place : Location} {s t : Session} {paths : List Path}
    (hrun : (g.get request).run s = (.ok paths, t)) (hl : request.language.isPrimary = true)
    (hne : request.names ≠ []) (hp : request.outputDirectory.Written) (hs : s.host.files.Sound)
    (hopened : Opened request s.host (.fromRoot place) files) (hempty : files.IsEmptyDirectory place)
    (hcode : ∀ u, (g.emission request).run u = (.ok code, u)) (hsegmented : ∀ file ∈ code.files, Segmented file.1) :
    t.host.files.view place = View.empty.writeAll code.files := by
  obtain ⟨output, made, harvester, code', hresolve, hmake, -, -, hemission, hlast⟩ := run_get_ok hne hrun
  obtain rfl : code' = code := Except.ok.inj (Prod.ext_iff.1 ((hemission s).symm.trans (hcode s))).1
  have hsame := hresolve.symm.trans hopened.resolved
  cases hsame
  have hsame := hmake.symm.trans hopened.made
  cases hsame
  obtain ⟨u, hsave, hnote⟩ := run_produce_primary_ok hl hlast
  obtain ⟨other, hplace, hproper, -, hgrown, hthere⟩ := hopened.exists_place hs hp
  obtain rfl : place = other := congrArg Path.names hplace
  have hsound : files.Sound := hgrown.sound hs
  have hunlinked : files.Unlinked place := hempty.unlinked hsound hproper
  obtain ⟨hlocate, hdirectory⟩ := hthere fun hl _ => hunlinked _ (.inl hl)
  obtain ⟨root, saved, hroot, hfiles, rfl⟩ := run_save_ok hsave
  obtain rfl : root = .fromRoot place := by
    obtain ⟨-, -, -, rfl, -⟩ := run_resolve_ok_iff.1 hroot
    exact resolve_eq hlocate
  obtain ⟨honly, hview⟩ := Emitter.run_saveFiles_below hsound hdirectory hunlinked hproper hsegmented hfiles
  obtain ⟨noted, hnoted, hlater⟩ := exists_noted (.saved paths.length (Path.fromRoot place).text)
    { s with host := { s.host with files := saved } }
  rw [hnote] at hnoted
  cases hnoted
  obtain ⟨line, hline⟩ := hlater.files
  -- the log file is not in a directory that was empty
  have hlog : ∀ {location}, saved.held = some location → ¬place <+: location := by
    rintro location hheld ⟨rest, rfl⟩
    rw [honly.held] at hheld
    obtain ⟨content, executable, hfile⟩ := hsound.held hheld
    have hrest : files.get? (place ++ rest) = View.empty rest := congrFun hempty.2 rest
    rw [hrest] at hfile
    unfold View.empty at hfile
    split at hfile <;> cases hfile
  have hlast : noted.files.view place = saved.view place := by
    funext rest
    show noted.files.get? (place ++ rest) = saved.get? (place ++ rest)
    rw [hline]
    refine (honly.sound.same_of_writeHeld line).kept fun hheld => ?_
    exact hlog hheld (List.prefix_append _ _)
  exact hlast.trans (by rw [hview, hempty.2])

/-- Requests for the same names of the same kind come to the same code, for whatever language it is. -/
theorem emission_congr {other : Request} (hnames : other.names = request.names)
    (hkind : other.kind = request.kind) : g.emission other = g.emission request := by
  unfold emission
  rw [hnames, hkind]

/-- The dispatches of a request with room for its code, whatever its tools do below the directories they work in. Name
after name the compiler is asked to act and then the packager, in the same directory, up to the first that fails
or the first package that cannot be harvested; and the compiler finds what the names would have been saved
as in an empty directory, and the manifest. The request succeeds only if all tools do, and then gives the
places of its names. -/
theorem run_get_traced (hp : request.outputDirectory.Written) {s : Session} (hs : s.host.files.Sound)
    (hroot : (g.stagingRoot.getD s.host.temporary).Written) (hapart : g.Apart request s.host)
    {files : FileSystem} {place rootPlace : Location} (hopened : Opened request s.host (.fromRoot place) files)
    (haccepted : Accepted g request .package code) (hl : request.language.isPrimary = false)
    (hroom : g.HasRoom s.host files place code request.names.length rootPlace)
    (hcs : ∀ c ∈ s.dispatchesOf (g.get request), c.Contained)
    (hlinks : ∀ c ∈ s.dispatchesOf (g.get request),
      c.context.action.adapter = CommandKind.packager.command → c.LeavesNoLink) :
    ∃ ds traced result t, (g.get request).run s = (result, t) ∧ t.dispatches = s.dispatches ++ ds ∧
      Traced g code request .package (.fromRoot place) request.names ds traced ∧
      (∀ failure, traced = .error failure → result = .error failure) ∧
      (∀ paths, traced = .ok paths →
        result = .ok paths ∨ ∃ failure : Failure, result = .error (failure.inStage none "harvest")) ∧
      (∀ paths, result = .ok paths →
        (ds.length = 2 * request.names.length ∧ ∀ d ∈ ds, d.receipt.succeeded = true) ∧
        ∃ cs : List Constraint, request.names.map Constraint.resolve = cs.map .ok ∧
          paths = cs.map fun c => (Path.fromRoot place).child (importName (c.source request.kind))) ∧
      ∀ {typescript : Request} {v w : Session} {made : FileSystem} {there : Location} {saved : List Path},
        typescript.language.isPrimary = true → typescript.names = request.names →
        typescript.kind = request.kind → typescript.outputDirectory.Written → v.host.files.Sound →
        Opened typescript v.host (.fromRoot there) made → made.IsEmptyDirectory there →
        (g.get typescript).run v = (.ok saved, w) →
        w.host.files.view there = View.empty.writeAll code.files := by
  obtain ⟨cs, hresolved, -⟩ := haccepted.exists_constraints
  have hproduce := run_get_of_accepted hopened haccepted
  unfold produce at hproduce
  rw [if_neg (by rw [hl]; exact Bool.false_ne_true)] at hproduce
  obtain ⟨ds, traced, u, hall, hdispatches, hturns⟩ := run_mapM_buildOne_turns g request .package
    (.fromRoot place) haccepted.stageable.closed hresolved { s with host := { s.host with files } }
  -- what follows the turns asks no tool to act
  have hend : ∃ result t, (g.get request).run s = (result, t) ∧ t.dispatches = s.dispatches ++ ds ∧
      (∀ failure, traced = .error failure → result = .error failure) ∧
      ∀ paths, traced = .ok paths →
        result = .ok paths ∨ ∃ failure : Failure, result = .error (failure.inStage none "harvest") := by
    cases traced with
    | error failure =>
      rw [run_bind_of_error hall] at hproduce
      refine ⟨_, u, hproduce, hdispatches, fun other he => ?_, fun _ he => nomatch he⟩
      cases he
      rfl
    | ok paths =>
      rw [run_bind_of_ok hall, run_bind, run_inStage, run_onHost] at hproduce
      rcases hfinish : (Harvester.package.finalize (.fromRoot place)).run u.host with ⟨failure | ⟨⟩, host⟩
      · rw [hfinish] at hproduce
        exact ⟨_, _, hproduce, hdispatches, (fun _ he => nomatch he), fun _ _ => .inr ⟨failure, rfl⟩⟩
      · rw [hfinish] at hproduce
        refine ⟨_, _, hproduce, hdispatches, (fun _ he => nomatch he), fun other he => .inl ?_⟩
        cases he
        rfl
  obtain ⟨result, t, hrun, hadded, hfailed, hdone⟩ := hend
  rw [Session.dispatchesOf_eq hrun hadded] at hcs hlinks
  obtain ⟨hpython, -⟩ := haccepted.harvester_eq hl
  have htraced := hroom.traced hturns haccepted.nonempty hpython haccepted.stageable hopened hapart hs hp hroot
    ⟨hcs, hlinks⟩
  refine ⟨ds, traced, result, t, hrun, hadded, htraced, hfailed, hdone, fun paths he => ?_, ?_⟩
  · -- nothing but the end of all turns comes to paths
    have hpaths : traced = .ok paths := by
      cases traced with
      | error failure =>
        rw [hfailed failure rfl] at he
        cases he
      | ok others =>
        rcases hdone others rfl with hok | ⟨failure, hbad⟩
        · rw [he] at hok
          exact hok.symm
        · rw [he] at hbad
          cases hbad
    subst hpaths
    exact ⟨htraced.succeeded rfl, cs, hresolved, hturns.paths_eq hresolved⟩
  · intro typescript v w made there saved hprimary hnames hkind hp' hv hopened' hempty hsaves
    have hcode : ∀ u, (g.emission typescript).run u = (.ok code, u) := by
      rw [emission_congr hnames hkind]
      exact haccepted.emission
    have hne : typescript.names ≠ [] := by
      rw [hnames]
      exact haccepted.nonempty
    exact view_of_run_get_saved hsaves hprimary hne hp' hv hopened' hempty hcode haccepted.stageable.segmented

/-! ## A request with room, and one whose package is a link -/

/-- Whether there is room for the code of a request whose staging root is that for temporary files. -/
def isRoomy (start : Host) (files : FileSystem) (code : Emitter) (count : Nat) (place : Location) : Bool :=
  (match files.isDirectory start.temporary with
    | .ok there => there
    | .error _ => false) &&
  (match files.locate .follow start.temporary with
    | .ok other => other == place
    | .error _ => false) &&
  (List.range (count + files.entries.length)).all fun k =>
    CanStage.isAmple start.temporary place code files (scratchName Site.label (start.staged + 1 + k))

/-- There is room where it looks roomy. -/
theorem hasRoom_of_isRoomy {files : FileSystem} {output place : Location} {count : Nat}
    (h : isRoomy start files code count place = true) (habsolute : start.temporary.isAbsolute) :
    ({} : Getter).HasRoom start files output code count place := by
  simp only [isRoomy, Bool.and_eq_true] at h
  obtain ⟨⟨hthere, hleads⟩, hroom⟩ := h
  refine ⟨rfl, ?_, ?_, fun n hn hle => ?_, .inl habsolute⟩
  · show files.isDirectory start.temporary = .ok true
    split at hthere
    · next he => rw [he, hthere]
    · cases hthere
  · show files.locate .follow start.temporary = .ok place
    split at hleads
    · next he => rw [he, eq_of_beq hleads]
    · cases hleads
  · have hle' : n ≤ start.staged + count + files.entries.length := hle
    have hk := List.all_eq_true.1 hroom (n - (start.staged + 1)) (List.mem_range.2 (by omega))
    have he : start.staged + 1 + (n - (start.staged + 1)) = n := by omega
    rw [he] at hk
    exact CanStage.of_isAmple hk

/-- The bare host has room for the request for two providers, and the request passes the check for collisions. -/
theorem isRoomy_stocked :
    isRoomy stocked.host ((makeDirectories (.fromRoot ["out"])).run stocked.host.files).2
        (({} : Getter).codeOf twoNames) 2 ["tmp"] = true ∧
      isOk (checkCollisions twoNames.names twoNames.language twoNames.kind) = true := by
  decide +kernel

/-- The tools of the request for two providers are asked to act in order. -/
theorem run_get_traced_stocked :
    ∃ ds traced result t, (({} : Getter).get twoNames).run stocked = (result, t) ∧ ds.length = 4 ∧
      t.dispatches = stocked.dispatches ++ ds ∧
      Traced {} (({} : Getter).codeOf twoNames) twoNames .package (.fromRoot ["out"])
        twoNames.names ds traced := by
  obtain ⟨hroomy, hcheck⟩ := isRoomy_stocked
  obtain ⟨ds, traced, result, t, hrun, hdispatches, htraced, -⟩ :=
    run_get_traced (g := {}) (s := stocked) (by decide : twoNames.outputDirectory.Written)
      RunOptions.sound_bareHost (by decide) (apart_stocked rfl) (opened_stocked rfl)
      (isStandard_default.accepted_codeOf rfl (by decide) (isOk_iff.1 hcheck)) rfl
      (hasRoom_of_isRoomy hroomy (by decide)) (fun c hc => (contained_stocked hc).1)
      fun c hc _ => (contained_stocked hc).2
  have hlength := tidy_stocked.2
  rw [Session.dispatchesOf_eq hrun hdispatches] at hlength
  exact ⟨ds, traced, result, t, hrun, hlength, hdispatches, htraced⟩

/-- A packager that leaves a link to the root where the packages should be. -/
def linkingPackager : StandIn :=
  { name := "jsii-pacmak"
    effect := fun context => Host.withFiles do
      let dist := (Path.ofString context.workingDirectory).child "dist/python"
      makeDirectories dist
      modify fun fs => fs.put (dist.names ++ ["src"]) (.link "/") }

/-- A session with a packager that leaves a link. -/
def linking : Session :=
  { stocked with registry := stocked.registry.insert (.standIn linkingPackager) }

/-- A request for two providers, the first of which has the name of the staging root. -/
def rootNamed : Request :=
  { language := .python, outputDirectory := .fromRoot ["out"], names := ["tmp", "b"] }

/-- Where a packager leaves a link to the directory of the staging root, the staging root can be harvested with what
is in it, and the names come to an end although no tool fails and no package is missing. -/
theorem not_traced_through_link :
    ¬∀ (g : Getter) (request : Request) (s : Session) (place root : Location) (files : FileSystem)
      (code : Emitter),
      request.outputDirectory.Written → s.host.files.Sound →
      Opened request s.host (.fromRoot place) files → Accepted g request .package code →
      g.HasRoom s.host files place code request.names.length root → ¬place <+: root → ¬root <+: place →
      (∀ c ∈ s.dispatchesOf (g.get request), c.Contained) →
      (∀ c ∈ s.dispatchesOf (g.get request), c.receipt.succeeded = true) →
      (s.dispatchesOf (g.get request)).length = 2 * request.names.length ∨
        stageOf ((g.get request).run s) = some "harvest" := by
  intro hall
  have hrun : (linking.dispatchesOf (({} : Getter).get rootNamed)).all (fun c =>
        c.isContained && c.receipt.succeeded) = true ∧
      (linking.dispatchesOf (({} : Getter).get rootNamed)).length = 2 ∧
      stageOf ((({} : Getter).get rootNamed).run linking) = some "stage" := by
    decide +kernel
  have hroom : isRoomy linking.host ((makeDirectories (.fromRoot ["out"])).run stocked.host.files).2
        (({} : Getter).codeOf rootNamed) 2 ["tmp"] = true ∧
      isOk (checkCollisions rootNamed.names rootNamed.language rootNamed.kind) = true := by
    decide +kernel
  obtain ⟨htools, hlength, hstage⟩ := hrun
  obtain ⟨hroomy, hcheck⟩ := hroom
  have htool : ∀ c ∈ linking.dispatchesOf (({} : Getter).get rootNamed),
      c.isContained = true ∧ c.receipt.succeeded = true := by
    intro c hc
    rw [← Bool.and_eq_true]
    exact List.all_eq_true.1 htools c hc
  have hend := hall {} rootNamed linking ["out"] ["tmp"] _ (({} : Getter).codeOf rootNamed) (by decide)
    RunOptions.sound_bareHost (opened_stocked rfl)
    (isStandard_default.accepted_codeOf rfl (by decide) (isOk_iff.1 hcheck))
    (hasRoom_of_isRoomy hroomy (by decide)) (by decide) (by decide)
    (fun c hc => Dispatch.contained_of_isContained (htool c hc).1) fun c hc => (htool c hc).2
  rw [hlength, hstage] at hend
  revert hend
  decide

end Getter

end ProviderBindings
