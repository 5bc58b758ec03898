import ProviderBindings.Proofs.FileSystem.Linking
import ProviderBindings.Proofs.Saving

/-!
# Changes that stay in a region

A region of a tree is a part that reaches down as far as the tree does and holds no link. `Enclosed` says that one
tree came from another by changes in a zone alone: nothing else was touched, no link came or went, and the working
directory was lost only if it stood in the zone. It is reflexive and transitive, and every change at a place of a
region keeps it.

An operation *stays* in a region when it changes nothing else, however it ends, in every tree that came about in the
region (`Region.Stays`). A path that points leads to one place in all those trees (`Region.Fixed`), so whether an
operation stays is told by the places of the paths that it is given.
-/

namespace ProviderBindings.FileSystem

variable {fs t u base : FileSystem} {ending : Ending} {zone zone' : Location → Prop} {α β : Type}

/-! ## Zones and regions -/

/-- What has no name is never touched. -/
theorem Untouched.of_named (h : Untouched (fun l => zone l ∧ ¬isNameless l) fs t) : Untouched zone fs t := by
  refine ⟨fun {l} hl hheld => ?_, fun {l} hl => ?_, h.held⟩
  · by_cases hname : isNameless l
    · rw [get?_of_isNameless hname, get?_of_isNameless hname]
    · exact h.same ⟨hl, hname⟩ hheld
  · by_cases hname : isNameless l
    · unfold shapeAt
      rw [get?_of_isNameless hname, get?_of_isNameless hname]
    · exact h.shape ⟨hl, hname⟩

/-- Whether one tree came from another by changes in a zone, none of which made or took a link. -/
structure Enclosed (zone : Location → Prop) (fs t : FileSystem) : Prop where
  /-- The tree is sound. -/
  sound : t.Sound
  /-- Nothing outside the zone was touched. The log file may have been added to. -/
  untouched : Untouched (¬zone ·) fs t
  /-- The same links stand at the same places. -/
  links : SameLinks fs t
  /-- The working directory is where it was, or was detached from there. -/
  working : Detached fs.workingDirectory t.workingDirectory
  /-- A working directory outside the zone is where it was. -/
  standing : ¬zone fs.workingDirectory → t.workingDirectory = fs.workingDirectory

/-- A sound tree came from itself. -/
theorem Enclosed.refl (hs : fs.Sound) (zone : Location → Prop) : Enclosed zone fs fs :=
  ⟨hs, .refl _ _, .refl _, .refl _, fun _ => rfl⟩

/-- What was changed in a zone twice was changed in it. -/
theorem Enclosed.trans (h : Enclosed zone fs t) (ht : Enclosed zone t u) : Enclosed zone fs u := by
  refine ⟨ht.sound, h.untouched.trans ht.untouched, h.links.trans ht.links, h.working.trans ht.working,
    fun hout => ?_⟩
  have hfirst : t.workingDirectory = fs.workingDirectory := h.standing hout
  rw [ht.standing (hfirst ▸ hout), hfirst]

/-- What was changed in a zone was changed in every larger one. -/
theorem Enclosed.mono (h : Enclosed zone fs t) (hz : ∀ l, zone l → zone' l) : Enclosed zone' fs t :=
  ⟨h.sound, h.untouched.mono fun l hl hin => hl (hz l hin), h.links, h.working,
    fun hout => h.standing fun hin => hout (hz _ hin)⟩

/-- Outside the zone a directory is one still. -/
theorem Enclosed.directory (h : Enclosed zone fs t) {location : Location} (hl : ¬zone location)
    (hd : fs.get? location = some .directory) : t.get? location = some .directory := by
  rw [← shapeAt_eq_directory, h.untouched.shape hl, shapeAt_eq_directory, hd]

/-- Between trees that differ in nothing but the log file, nothing was changed. -/
theorem Same.enclosed (h : Same fs t) (hs : t.Sound) (zone : Location → Prop) : Enclosed zone fs t :=
  ⟨hs, h.untouched, h.sameLinks, h.working ▸ .refl _, fun _ => h.working⟩

/-- A tree that has grown came about by what was made where nothing stood. -/
theorem Grown.enclosed (h : Grown fs t) (hs : fs.Sound) :
    Enclosed (fun l => fs.get? l = none ∧ t.get? l = some .directory) fs t := by
  refine ⟨h.sound hs, untouched_of_get? (fun {location} hl => ?_) (fun hl => by rwa [h.held] at hl), ?_,
    h.working ▸ .refl _, fun _ => h.working⟩
  · cases hthere : fs.get? location with
    | some entry => exact h.kept hthere
    | none =>
      cases hnow : t.get? location with
      | none => rfl
      | some entry =>
        obtain rfl : entry = .directory := h.new hthere hnow
        exact absurd ⟨hthere, hnow⟩ hl
  · intro location target
    refine ⟨fun hlink => ?_, fun hlink => h.kept hlink⟩
    cases hthere : fs.get? location with
    | none => cases h.new hthere hlink
    | some entry =>
      rw [h.kept hthere] at hlink
      exact hlink

/-- A part of a sound tree that holds whatever is below what it holds, and no link. -/
structure Region (base : FileSystem) where
  zone : Location → Prop
  below : ∀ {a b : Location}, zone a → a <+: b → zone b
  unlinked : ∀ {location target}, zone location → base.get? location ≠ some (.link target)
  sound : base.Sound

namespace Region

variable {R : Region base}

/-- Whether a tree came from that of the region by changes in it. -/
def Encloses (R : Region base) (fs : FileSystem) : Prop :=
  Enclosed R.zone base fs

/-- The tree of a region came from itself. -/
theorem encloses_base (R : Region base) : R.Encloses base :=
  .refl R.sound R.zone

/-- No link is in a region, now as before. -/
theorem Encloses.unlinked (h : R.Encloses fs) {location : Location} {target : String}
    (hl : R.zone location) : fs.get? location ≠ some (.link target) :=
  fun hlink => R.unlinked hl ((h.links _ _).1 hlink)

/-! ## What may be done in a region -/

/-- A change keeps to a region when nothing else is changed, no link is made and nothing else becomes the log
file. -/
theorem Encloses.step (h : R.Encloses fs) (hs : t.Sound)
    (hget : ∀ {l}, ¬R.zone l → t.get? l = fs.get? l)
    (hlinks : ∀ {l target}, R.zone l → t.get? l ≠ some (.link target))
    (hheld : ∀ {l}, t.held = some l → fs.held = some l)
    (hworking : Detached fs.workingDirectory t.workingDirectory)
    (hstanding : ¬R.zone fs.workingDirectory → t.workingDirectory = fs.workingDirectory) :
    R.Encloses t := by
  refine h.trans ⟨hs, untouched_of_get? hget hheld, fun location target => ?_, hworking, hstanding⟩
  by_cases hin : R.zone location
  · exact ⟨fun hlink => absurd hlink (hlinks hin), fun hlink => absurd hlink (h.unlinked hin)⟩
  · rw [hget hin]

/-- Anything but a link may be put at a place of a region. -/
theorem Encloses.put (h : R.Encloses fs) {place : Location} {entry : Entry} (hp : R.zone place)
    (hname : ¬isNameless place) (hlink : ∀ target, entry ≠ .link target)
    (hs : (fs.put place entry).Sound) : R.Encloses (fs.put place entry) := by
  have hget : ∀ l, (fs.put place entry).get? l = if place = l then some entry else fs.get? l :=
    fun l => get?_put entry l hname
  refine h.step hs (fun hl => ?_) (fun {l target} hl => ?_) id (.refl _) fun _ => rfl
  · rw [hget, if_neg]
    rintro rfl
    exact hl hp
  · rw [hget]
    split
    · exact fun he => hlink target (Option.some.inj he)
    · exact h.unlinked hl

/-- What stands at a place of a region may be removed. -/
theorem Encloses.removed (h : R.Encloses fs) {place : Location} (hp : R.zone place)
    (ht : Removed place fs t) : R.Encloses t := by
  refine h.step (ht.sound h.sound) (fun hl => ht.kept fun hin => hl (R.below hp hin))
    (fun {l target} hl => ?_) (fun hl => ht.untouched.held hl) ?_ fun hout => ?_
  · by_cases hin : place <+: l
    · by_cases hname : isNameless l
      · rw [get?_of_isNameless hname]
        simp
      · rw [ht.gone hname hin]
        simp
    · rw [ht.kept hin]
      exact h.unlinked hl
  · by_cases hin : place <+: fs.workingDirectory
    · rw [ht.detached hin]
      exact detached_detach ((List.dropLast_prefix place).trans hin)
    · rw [ht.working hin]
      exact .refl _
  · exact ht.working fun hin => hout (R.below hp hin)

/-- A directory of a region may be cleared. -/
theorem Encloses.clear (h : R.Encloses fs) {place : Location} (hp : R.zone place) :
    R.Encloses (fs.clear place) := by
  have hout : ∀ {l}, ¬R.zone l → ¬place <+: l := fun hl hin => hl (R.below hp hin)
  refine h.step (h.sound.clear place) (fun hl => get?_clear_of_not_below fun hin => absurd hin (hout hl))
    (fun {l target} hl => ?_) (fun hl => (Option.filter_eq_some_iff.1 hl).1) ?_ fun hw => ?_
  · rw [get?_clear]
    split
    · simp
    · exact h.unlinked hl
  · unfold FileSystem.clear
    dsimp only
    split
    · next hin => exact detached_detach (within_iff_isPrefix.1 hin)
    · exact .refl _
  · exact workingDirectory_clear_of_not_below fun hin => hout hw hin.1

/-- A name is not below a place that is no directory of the tree of a region, as far as a working directory goes. -/
theorem Encloses.not_isPrefix_working (h : R.Encloses fs) {place : Location}
    (hn : base.get? place = none) : ¬place <+: fs.workingDirectory := by
  intro hin
  obtain ⟨kept, lost, hbase, hnow⟩ := h.working
  have hname : ¬isNameless place := not_isNameless_of_get?_none hn
  have hkept : place <+: kept := isPrefix_of_not_isNameless (hnow ▸ hin) hname
  have hdir : base.get? place = some .directory :=
    R.sound.working (hbase ▸ hkept.trans (List.prefix_append kept lost))
  rw [hn] at hdir
  cases hdir

/-- What came to stand where nothing stood may be moved within a region, but not into itself. -/
theorem Encloses.transplant (h : R.Encloses fs) {src dst : Location} (hsrc : R.zone src)
    (hdst : R.zone dst) (hn : base.get? src = none) (hp : Proper dst) (hshort : Short dst) (hne : dst ≠ [])
    (hparent : fs.get? dst.dropLast = some .directory) (hin : ¬src <+: dst) :
    R.Encloses ((fs.remove dst).transplant src dst) := by
  have hname : ¬isNameless src := not_isNameless_of_get?_none hn
  have hremoved : R.Encloses (fs.remove dst) := h.removed hdst (removed_remove fs dst)
  have hfree : ∀ l, dst <+: l → ¬isNameless l → (fs.remove dst).get? l = none :=
    fun l hl hlname => get?_remove_of_isPrefix hlname hl
  have hparent' : (fs.remove dst).get? dst.dropLast = some .directory := by
    rw [get?_remove_of_not_isPrefix (not_isPrefix_dropLast hne), hparent]
  have hworking : moved src dst (fs.remove dst).workingDirectory = (fs.remove dst).workingDirectory :=
    moved_of_not_isPrefix (hremoved.not_isPrefix_working hn)
  refine hremoved.step
    (hremoved.sound.transplant hname hp hne (hfree dst (List.prefix_refl dst) (hp.not_isNameless hne)) hshort
      hparent' hin) (fun {l} hl => ?_) (fun {l target} hl => ?_) (fun {l} hl => ?_) ?_ fun _ => hworking
  · exact get?_transplant_of_not_isPrefix hname hfree (fun hd => hl (R.below hdst hd)) fun hs => hl (R.below hsrc hs)
  · by_cases hlname : isNameless l
    · rw [get?_of_isNameless hlname]
      simp
    · rw [get?_transplant hlname hname hfree]
      split
      · exact hremoved.unlinked (R.below hsrc (List.prefix_append _ _))
      · split
        · simp
        · exact hremoved.unlinked hl
  · -- the log file was there before what is moved
    obtain ⟨place, hplace, rfl⟩ := Option.map_eq_some_iff.1 hl
    have hlog : ¬src <+: place := by
      intro hpre
      exact hremoved.untouched.not_isPrefix_held R.sound hn hplace hpre
    rw [moved_of_not_isPrefix hlog]
    exact hplace
  · exact hworking ▸ .refl _

/-- The log file may be added to, wherever it is. -/
theorem Encloses.writeHeld (h : R.Encloses fs) (line : String) : R.Encloses (fs.writeHeld line) :=
  h.trans ((h.sound.same_of_writeHeld line).enclosed (h.sound.writeHeld line) _)

/-! ## Where paths lead -/

/-- Whether a path leads to a place in every tree that came about in a region, wherever it leads at all. -/
def Fixed (R : Region base) (ending : Ending) (p : Path) (place : Location) : Prop :=
  ∀ fs other, R.Encloses fs → fs.locate ending p = .ok other → other = place

/-- Whether nothing that is made at a path is made outside a region. -/
def Guarded (R : Region base) (p : Path) : Prop :=
  ∀ fs place, R.Encloses fs → fs.locate .keep p = .ok place → fs.get? place = none → R.zone place

/-- A path to a place of a region is guarded. -/
theorem Fixed.guarded {p : Path} {place : Location} (h : R.Fixed .keep p place) (hp : R.zone place) :
    R.Guarded p :=
  fun fs other hfs hl _ => h fs other hfs hl ▸ hp

/-- A path points in all trees of a region to where it points in one. -/
theorem Encloses.points (h : R.Encloses fs) {p : Path} {place : Location} (hp : base.Points p place) :
    fs.Points p place :=
  hp.of_sameLinks h.links h.working

/-- Names that lead from where a path points into a region, and stay in it, lead to one place. -/
theorem fixed_append {p : Path} {middle : Location} (h : base.Points p middle) {more : List String}
    (hne : more ≠ []) (hp : Proper more) (hz : ∀ top, top <+: more → top ≠ [] → R.zone (middle ++ top)) :
    R.Fixed ending ⟨p.anchor, p.names ++ more⟩ (middle ++ more) :=
  fun _ _ hfs hl => (hfs.points h).eq_append hl hne hp fun ht htop _ => hfs.unlinked (hz _ ht htop)

/-- A path that points to a directory is guarded: where that is missing, it was removed from the region. -/
theorem guarded_of_points {p : Path} {middle : Location} (h : base.Points p middle)
    (hd : base.get? middle = some .directory ∨ R.zone middle) : R.Guarded p := by
  intro fs place hfs hl hfree
  obtain rfl : place = middle := (hfs.points h).eq_of_free hl hfree
  rcases hd with hd | hin
  · by_contra hout
    rw [hfs.untouched.get?_eq_none_iff hout, hd] at hfree
    cases hfree
  · exact hin

/-! ## Operations that stay -/

/-- Whether an operation changes nothing outside a region, however it ends. -/
def Stays (R : Region base) (work : FileAction α) : Prop :=
  ∀ fs, R.Encloses fs → R.Encloses (work.run fs).2

/-- What an operation that stays leaves is of the region. -/
theorem Stays.of_run {work : FileAction α} (hw : R.Stays work) {result : Except FileFailure α} (h : R.Encloses fs)
    (hrun : work.run fs = (result, t)) : R.Encloses t :=
  Preserves.of_run hw h hrun

/-- A sequence of operations that stay stays. -/
theorem Stays.bind {x : FileAction α} {f : α → FileAction β} (hx : R.Stays x) (hf : ∀ a, R.Stays (f a)) :
    R.Stays (x >>= f) :=
  Preserves.bind hx hf

/-! ## Making and writing -/

/-- To make a directory at a guarded path stays. -/
theorem stays_makeDirectory {p : Path} (hp : p.Written) (h : R.Guarded p) : R.Stays (makeDirectory p) := by
  intro fs hfs
  rcases hrun : (makeDirectory p).run fs with ⟨failure | ⟨⟩, t⟩
  · rw [makeDirectory] at hrun
    obtain rfl : t = fs := run_makeDirectoryAt_error hrun
    exact hfs
  · obtain ⟨place, hl, hfree, rfl, hgrown, -⟩ := run_makeDirectory_ok hfs.sound hp hrun
    exact hfs.put (h _ _ hfs hl hfree) (not_isNameless_of_get?_none hfree) (by simp) (hgrown.sound hfs.sound)

/-- To make a directory with its parents stays when the path is guarded all the way. -/
theorem stays_makeDirectories {p : Path} (hp : p.Written)
    (h : ∀ names, names <+: p.names → R.Guarded ⟨p.anchor, names⟩) : R.Stays (makeDirectories p) :=
  Preserves.makeDirectories fun names hn => stays_makeDirectory (fun name hname => hp name (hn.subset hname)) (h names hn)

/-- To write a file at a place of a region stays. -/
theorem stays_writeText {p : Path} (hp : p.Written) {place : Location} (h : R.Fixed .write p place)
    (hz : R.zone place) (s : String) : R.Stays (writeText p s) := by
  intro fs hfs
  rcases hrun : (writeText p s).run fs with ⟨failure | ⟨⟩, t⟩
  · obtain rfl : t = fs := run_writeText_error hrun
    exact hfs
  · obtain ⟨-, other, hl, hd, rfl⟩ := run_writeText_ok_iff.1 hrun
    obtain rfl : other = place := h _ _ hfs hl
    exact hfs.put hz (not_isNameless_of_get?_ne hd) (by simp) (hfs.sound.filled_put hp hl hd _ _).sound

/-! ## Removing -/

/-- To remove a file at a place of a region stays. -/
theorem stays_unlink {p : Path} {place : Location} (h : R.Fixed .keep p place) (hz : R.zone place) :
    R.Stays (unlink p) := by
  intro fs hfs
  rcases hrun : (unlink p).run fs with ⟨result, t⟩
  cases unlinks_of_run hrun with
  | failed => exact hfs
  | @removed other _ _ hl =>
    obtain rfl : other = place := h _ _ hfs hl
    exact hfs.removed hz (removed_remove fs other)

/-- To remove a directory at a place of a region with what is below it stays. -/
theorem stays_removeTree {p : Path} {place : Location} (h : R.Fixed .keep p place) (hz : R.zone place) :
    R.Stays (removeTree p) := by
  intro fs hfs
  rcases hrun : (removeTree p).run fs with ⟨result, t⟩
  cases removesTree_of_run hrun with
  | failed => exact hfs
  | @cleared other _ _ _ hl _ hremoves =>
    obtain rfl : other = place := h _ _ hfs hl
    have hcleared : R.Encloses (fs.clear other) := hfs.clear hz
    cases hremoves with
    | failed => exact hcleared
    | @removed last _ _ _ _ hl' =>
      obtain rfl : last = other := h _ _ hcleared hl'
      exact hcleared.removed hz (removed_remove _ last)

end Region

/-! ## Moving -/

/-- Whether a rename is sought between paths that name what they lead to, and not into what is renamed. -/
structure Renamable (fs : FileSystem) (source target : Path) : Prop where
  /-- The one path can be written. -/
  sourceWritten : source.Written
  /-- The other path can be written. -/
  written : target.Written
  /-- The one path ends in a name that a thing can be renamed from. -/
  sourceNamed : isProperlyNamed source
  /-- The other ends in one that a thing can be renamed to. -/
  targetNamed : isProperlyNamed target
  /-- The place that it gets is not in what is renamed. -/
  apart : ∀ {src dst}, fs.locate .keep source = .ok src → fs.locate .keep target = .ok dst → ¬src <+: dst

namespace Renamable

variable {source target : Path}

/-- Where a directory cannot be renamed, the place that it would have taken is not free. -/
theorem get?_ne_none_of_failed (h : fs.Renamable source target) (hd : fs.showsDirectory source.text = true)
    (hfault : PathFault.ofText? source.text = none) (hfault' : PathFault.ofText? target.text = none)
    {place dst : Location} (hl : fs.locate .follow source = .ok place) (hdst : fs.locate .keep target = .ok dst)
    {failure : FileFailure} (hrename : (rename source target).run fs = (.error failure, fs)) :
    fs.get? dst ≠ none := by
  intro hfree
  -- the source leads to a directory, and so to something when a link at its end is kept
  have hthere : (fs.get? place).isSome := by
    by_contra hnone
    have hshows : fs.showsDirectory source.text = false := by
      refine showsDirectory_text h.sourceWritten fun place' hl' hdir => hnone ?_
      rw [hl] at hl'
      cases hl'
      simp [hdir]
    rw [hshows] at hd
    cases hd
  obtain ⟨src, hsrc, hsome⟩ := locate_keep hl hthere
  obtain ⟨entry, hentry⟩ := Option.isSome_iff_exists.1 hsome
  rw [run_rename hfault hfault' hsrc hdst hentry hfree h.sourceNamed h.targetNamed (h.apart hsrc hdst)] at hrename
  cases hrename

/-- A directory that cannot be renamed is not copied either: its copy could only be made where the rename would have
put it. -/
theorem failed_of_movesByCopy (h : fs.Renamable source target) (hd : fs.showsDirectory source.text = true)
    {failure : FileFailure} (hrename : (rename source target).run fs = (.error failure, fs))
    {result : Except FileFailure Unit} (hcopies : MovesByCopy source target fs result t) :
    t = fs ∧ ∃ failure, result = .error failure := by
  cases hcopies with
  | failed => exact ⟨rfl, _, rfl⟩
  | copied hfault hsrc hfault' hdst hfree =>
    exact absurd hfree (h.get?_ne_none_of_failed hd hfault hfault' hsrc hdst hrename)

/-- A move to a path is a rename, or it fails and changes nothing. -/
theorem cases_of_movesTo (h : fs.Renamable source target) {result : Except FileFailure Unit}
    (hto : MovesTo source target fs result t) :
    Renames source target fs (.ok ()) t ∧ result = .ok () ∨ t = fs ∧ ∃ failure, result = .error failure := by
  cases hto with
  | renamed hrenames => exact .inl ⟨hrenames, rfl⟩
  | failed => exact .inr ⟨rfl, _, rfl⟩
  | copied hrename hshows hcopies => exact .inr (h.failed_of_movesByCopy hshows hrename hcopies)

/-- What is moved to a path that leads to no directory is renamed. -/
theorem run_move_ok (h : fs.Renamable source target) (hshows : fs.showsDirectory target.text = false)
    (hrun : (move source target).run fs = (.ok (), t)) :
    ∃ src dst, fs.locate .keep source = .ok src ∧ fs.locate .keep target = .ok dst ∧
      t = (fs.remove dst).transplant src dst := by
  cases moves_of_run h.written hrun with
  | same hother => simp [hshows] at hother
  | into hother => simp [hshows] at hother
  | there _ hto =>
    rcases h.cases_of_movesTo hto with ⟨hrenames, -⟩ | ⟨-, failure, hbad⟩
    · cases hrenames with
      | same _ _ hsrc hdst => exact absurd (List.prefix_refl _) (h.apart hsrc hdst)
      | moved _ _ hsrc hdst => exact ⟨_, _, hsrc, hdst, rfl⟩
    · cases hbad

end Renamable

namespace Region

variable {R : Region base}

/-- Whether a path leads from a place of a region, where nothing stood at first, and another to a place of the region
that is not below it. -/
structure Movable (R : Region base) (source target : Path) (src dst : Location) : Prop where
  /-- The one path leads to its place as long as changes stay in the region. -/
  leads : R.Fixed .keep source src
  /-- So does the other. -/
  leadsTo : R.Fixed .keep target dst
  /-- The one path can be written. -/
  sourceWritten : source.Written
  /-- So can the other. -/
  written : target.Written
  /-- The one path ends in a name that a thing can be renamed from. -/
  sourceNamed : isProperlyNamed source
  /-- The other ends in one that a thing can be renamed to. -/
  targetNamed : isProperlyNamed target
  /-- The one place is in the region. -/
  sourceZone : R.zone src
  /-- So is the other. -/
  targetZone : R.zone dst
  /-- Nothing stood at the one place at first. -/
  vacant : base.get? src = none
  /-- The other place has a name. -/
  named : ¬isNameless dst
  /-- The other place is not below the one. -/
  apart : ¬src <+: dst

namespace Movable

variable {source target : Path} {src dst : Location}

/-- Renaming within a region stays in it. -/
theorem encloses_of_renames (h : R.Movable source target src dst) (hfs : R.Encloses fs)
    {result : Except FileFailure Unit} (hrenames : Renames source target fs result t) : R.Encloses t := by
  cases hrenames with
  | failed | same => exact hfs
  | @moved src' dst' _ _ _ hsrc hdst =>
    obtain rfl : src' = src := h.leads _ _ hfs hsrc
    obtain rfl : dst' = dst := h.leadsTo _ _ hfs hdst
    obtain ⟨hp, hshort, hne, hparent⟩ := hfs.sound.named_place h.written hdst h.named
    exact hfs.transplant h.sourceZone h.targetZone h.vacant hp hshort hne hparent h.apart

/-- What is moved within a region may be renamed. -/
theorem renamable (h : R.Movable source target src dst) (hfs : R.Encloses fs) : fs.Renamable source target := by
  refine ⟨h.sourceWritten, h.written, h.sourceNamed, h.targetNamed, fun {src' dst'} hsrc hdst => ?_⟩
  rw [h.leads _ _ hfs hsrc, h.leadsTo _ _ hfs hdst]
  exact h.apart

/-- Renaming or else moving within a region stays in it. -/
theorem encloses_of_movesTo (h : R.Movable source target src dst) (hfs : R.Encloses fs)
    {result : Except FileFailure Unit} (hto : MovesTo source target fs result t) : R.Encloses t := by
  rcases (h.renamable hfs).cases_of_movesTo hto with ⟨hrenames, -⟩ | ⟨rfl, -⟩
  · exact h.encloses_of_renames hfs hrenames
  · exact hfs

/-- What is moved to a free place of a region is transplanted. -/
theorem run_move_ok (h : R.Movable source target src dst) (hfollow : R.Fixed .follow target dst)
    (hfs : R.Encloses fs) (hfree : fs.get? dst = none) (hrun : (move source target).run fs = (.ok (), t)) :
    fs.locate .keep source = .ok src ∧ fs.locate .keep target = .ok dst ∧
      t = (fs.remove dst).transplant src dst := by
  have hshows : fs.showsDirectory target.text = false := by
    refine showsDirectory_text h.written fun place hl => ?_
    obtain rfl : place = dst := hfollow _ _ hfs hl
    rw [hfree]
    simp
  obtain ⟨src', dst', hsrc, hdst, rfl⟩ := (h.renamable hfs).run_move_ok hshows hrun
  obtain rfl : src' = src := h.leads _ _ hfs hsrc
  obtain rfl : dst' = dst := h.leadsTo _ _ hfs hdst
  exact ⟨hsrc, hdst, rfl⟩

/-- To move within a region stays, also into a directory that stands at the target. -/
theorem stays_move (h : R.Movable source target src dst) {into : Location}
    (hinto : R.Movable source (target.child source.name) src into) : R.Stays (move source target) := by
  intro fs hfs
  rcases hrun : (move source target).run fs with ⟨result, t⟩
  cases moves_of_run h.written hrun with
  | there _ hto => exact h.encloses_of_movesTo hfs hto
  | same _ hrenames => exact h.encloses_of_renames hfs hrenames
  | taken => exact hfs
  | into _ hto => exact hinto.encloses_of_movesTo hfs hto

end Movable

end Region

/-! ## Directories made on the way -/

/-- Whether a directory was made where nothing stood, and first names of a path lead there. -/
structure MadeFor (p : Path) (fs t : FileSystem) (location : Location) : Prop where
  /-- Nothing stood there. -/
  new : fs.get? location = none
  /-- Now a directory stands there. -/
  there : t.get? location = some .directory
  /-- Some first names of the path lead there. -/
  leads : ∃ names, names <+: p.names ∧ t.locate .follow ⟨p.anchor, names⟩ = .ok location

/-- What stands where nothing stood after a directory was made unless it was there is that directory. -/
theorem madeFor_of_makeDirectoryIfMissing {p : Path} (hp : p.Written)
    (h : (makeDirectoryIfMissing p).run fs = (.ok (), t)) {location : Location} (hn : fs.get? location = none)
    (ht : t.get? location ≠ none) : MadeFor p fs t location := by
  rcases run_makeDirectoryIfMissing_ok_iff.1 h with hmade | ⟨-, -, rfl⟩
  · rw [makeDirectory] at hmade
    obtain ⟨-, place, hl, hfree, rfl⟩ := run_makeDirectoryAt_ok_iff.1 hmade
    rw [locateText_text _ _ hp] at hl
    obtain rfl : place = location := by
      by_contra hne
      rw [get?_put _ _ (not_isNameless_of_get?_none hfree), if_neg hne] at ht
      exact ht hn
    obtain ⟨-, hfollow, hthere⟩ := locate_put_directory hl hfree
    exact ⟨hn, hthere, p.names, List.prefix_refl _, hfollow⟩
  · exact absurd hn ht

/-- What stands where nothing stood after a directory was made with its parents was made for it. -/
theorem madeFor_of_run_ok (hs : fs.Sound) {p : Path} (hp : p.Written)
    (h : (makeDirectories p).run fs = (.ok (), t)) {location : Location} (hn : fs.get? location = none)
    (ht : t.get? location ≠ none) : MadeFor p fs t location := by
  induction p using Path.parent_induction generalizing fs t with
  | step p ih =>
    rcases run_makeDirectories_ok_cases h with h | ⟨hne, u, hup, hlast⟩
    · exact madeFor_of_makeDirectoryIfMissing hp h hn ht
    · obtain ⟨hgrown, -⟩ := run_makeDirectories_ok hs hp.parent hup
      obtain ⟨hgrown', -⟩ := run_makeDirectoryIfMissing_ok (hgrown.sound hs) hp hlast
      by_cases hmiddle : u.get? location = none
      · have hmade := madeFor_of_makeDirectoryIfMissing hp hlast hmiddle ht
        exact ⟨hn, hmade.there, hmade.leads⟩
      · -- a parent was made, and its path leads there still
        obtain ⟨-, hthere, names, hnames, hleads⟩ := ih hne hs hp.parent hup hn hmiddle
        refine ⟨hn, hgrown'.kept hthere, names, hnames.trans (List.dropLast_prefix _), ?_⟩
        exact locate_carried hleads hgrown'.carries (startOf_eq hgrown'.working _)
          fun hnone => absurd hnone hmiddle

/-- Making a directory with its parents changes nothing but what is made for it, however it ends. -/
theorem enclosed_makeDirectories (hs : fs.Sound) {p : Path} (hp : p.Written)
    {result : Except FileFailure Unit} (h : (makeDirectories p).run fs = (result, t)) :
    Enclosed (MadeFor p fs t) fs t := by
  refine ((grown_makeDirectories hs hp h).enclosed hs).mono fun location hl => ?_
  have hnew : t.get? location ≠ none := by simp [hl.2]
  cases result with
  | ok _ => exact madeFor_of_run_ok hs hp h hl.1 hnew
  | error failure =>
    rcases run_makeDirectories_error h with rfl | ⟨names, hnames, hmade⟩
    · exact absurd hl.1 hnew
    · have hwritten : (⟨p.anchor, names⟩ : Path).Written := fun name hname => hp name (hnames.subset hname)
      obtain ⟨hn, hthere, first, hfirst, hleads⟩ := madeFor_of_run_ok hs hwritten hmade hl.1 hnew
      exact ⟨hn, hthere, first, hfirst.trans hnames, hleads⟩

end ProviderBindings.FileSystem
