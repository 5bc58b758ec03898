import ProviderBindings.Proofs.FileSystem.Enclosing
import ProviderBindings.Proofs.Separation

/-!
# A turn in a region

What a turn of a name can change, wherever the staging root and the output directory are and whatever leads to
them. An `Outlet` is a tree with the output directory of a request: its path points there, and nothing but what is
below it can have to be made on the way. A `Bench` is such a tree in which a staging directory is to be made. Until
the harvest everything stays inside the staging directory (`Bench.inside`), tools included, if they are contained and
add no link; the harvest and the removal of the directory stay around it and below the output directory
(`Bench.around`). So the turn as a whole does (`Turn.around`).
-/

namespace ProviderBindings

open FileSystem

/-- Whether a tool made no link. -/
def Dispatch.AddsNoLink (c : Dispatch) : Prop :=
  ∀ location target, c.after.files.get? location = some (.link target) →
    c.before.files.get? location = some (.link target)

/-- What is noted changes no more than a log. -/
theorem Noted.enclosed {host host' : Host} (h : Noted host host') (hs : host.files.Sound) (zone : Location → Prop) :
    Enclosed zone host.files host'.files := by
  obtain ⟨line, hline⟩ := h.files
  rw [hline]
  exact (hs.same_of_writeHeld line).enclosed (hs.writeHeld line) zone

/-! ## Below a directory -/

/-- No link is on the way to a directory of a sound tree, so none is there at all when none is below it. -/
theorem FileSystem.Sound.unlinked {fs : FileSystem} (hs : fs.Sound) {top : Location}
    (hd : fs.get? top = some .directory) (hp : Proper top)
    (h : ∀ {location target}, Below top location → fs.get? location ≠ some (.link target)) : fs.Unlinked top := by
  intro location hl target htarget
  by_cases hway : location <+: top
  · rw [hs.rooted hd hp hway] at htarget
    cases htarget
  · refine h ⟨hl.resolve_left hway, ?_⟩ htarget
    rintro rfl
    exact hway (List.prefix_refl _)

namespace FileSystem.Region

variable {base fs t : FileSystem} {top : Location}

/-- What is below a location, where no link is. -/
def under (hs : base.Sound)
    (hu : ∀ {location target}, Below top location → base.get? location ≠ some (.link target)) : Region base where
  zone := Below top
  below := Below.of_isPrefix
  unlinked := hu
  sound := hs

variable {hs : base.Sound}
  {hu : ∀ {location target}, Below top location → base.get? location ≠ some (.link target)}

/-- Saving code in a directory stays below it. -/
theorem under_saveFiles (h : (under hs hu).Encloses fs) (hthere : base.get? top = some .directory)
    (hp : Proper top) {code : Emitter} (hcode : ∀ file ∈ code.files, Segmented file.1)
    {result : Except FileFailure (List Path)} (hrun : (code.saveFiles (.fromRoot top)).run fs = (result, t)) :
    (under hs hu).Encloses t := by
  have hnow : fs.get? top = some .directory := h.directory (fun hb => hb.2 rfl) hthere
  have hunlinked : fs.Unlinked top := h.sound.unlinked hnow hp h.unlinked
  have hsaved : OnlyBelow top fs t := Emitter.onlyBelow_saveFiles h.sound hnow hunlinked hp hcode hrun
  refine h.step hsaved.sound (fun {l} hl => ?_) (fun {l target} hl => hsaved.unlinked l (.inr hl.1) target)
    (fun hl => by rwa [hsaved.held] at hl) (hsaved.working ▸ .refl _) fun _ => hsaved.working
  by_cases hin : top <+: l
  · obtain rfl : l = top := Classical.not_not.1 fun hne => hl ⟨hin, hne⟩
    rw [hsaved.directory, hnow]
  · exact hsaved.elsewhere hin

/-- Writing a file into the directory that a path points to stays below it. -/
theorem under_writeText (h : (under hs hu).Encloses fs) {p : Path} (hp : p.Written) (hpoints : base.Points p top)
    {name : String} (hname : Proper [name]) {text : String} {result : Except FileFailure Unit}
    (hrun : (writeText (p.child name) text).run fs = (result, t)) : (under hs hu).Encloses t := by
  have hfixed : (under hs hu).Fixed .write (p.child name) (top ++ [name]) := by
    rw [Path.child_of_isName p (hname _ (by simp)).1]
    exact fixed_append hpoints (by simp) hname fun l _ hne => below_append hne
  exact (stays_writeText (hp.child name) hfixed (below_append (by simp)) text).of_run h hrun

end FileSystem.Region

/-! ## Trees with an output directory -/

/-- Whether a path points to an output directory without links below it, and with all its first names to directories,
or to places below the output directory. -/
structure Outlet (base : FileSystem) (output : Path) (top : Location) : Prop where
  /-- The tree is sound. -/
  sound : base.Sound
  /-- The path can be written. -/
  written : output.Written
  /-- The path points to the place. -/
  points : base.Points output top
  /-- A directory stands at the place. -/
  there : base.get? top = some .directory
  /-- The place has proper names. -/
  proper : Proper top
  /-- No link stands below the place. -/
  unlinked : ∀ {location target}, Below top location → base.get? location ≠ some (.link target)
  /-- The first names of the path point to directories, or to places below the output directory. -/
  way : ∀ {names}, names <+: output.names → ∃ middle, base.Points ⟨output.anchor, names⟩ middle ∧
    (base.get? middle = some .directory ∨ Below top middle)

namespace Outlet

variable {base t : FileSystem} {output : Path} {top : Location}

/-- Whatever is changed below the output directory or where nothing stood, a directory is one still if it is not below
the output directory. -/
theorem directory_or_below {zone : Location → Prop} (ht : Enclosed zone base t)
    (hz : ∀ l, zone l → Below top l ∨ base.get? l = none ∨ isNameless l) {location : Location}
    (hd : base.get? location = some .directory) : t.get? location = some .directory ∨ Below top location := by
  by_cases hin : zone location
  · rcases hz location hin with hbelow | hnone | hname
    · exact .inr hbelow
    · rw [hd] at hnone
      cases hnone
    · exact .inl (get?_of_isNameless hname)
  · exact .inl (ht.directory hin hd)

/-- Whatever is changed below the output directory or where nothing stood, the output directory is where it was. -/
theorem of_enclosed (h : Outlet base output top) {zone : Location → Prop} (ht : Enclosed zone base t)
    (hz : ∀ l, zone l → Below top l ∨ base.get? l = none ∨ isNameless l) : Outlet t output top := by
  refine ⟨ht.sound, h.written, h.points.of_sameLinks ht.links ht.working, ?_, h.proper,
    fun hl hlink => h.unlinked hl ((ht.links _ _).1 hlink), fun hn => ?_⟩
  · exact (directory_or_below ht hz h.there).resolve_right fun hbelow => hbelow.2 rfl
  · obtain ⟨middle, hmiddle, hd⟩ := h.way hn
    refine ⟨middle, hmiddle.of_sameLinks ht.links ht.working, ?_⟩
    exact hd.elim (directory_or_below ht hz) .inr

/-- What is below the output directory. -/
def below (h : Outlet base output top) : Region base :=
  .under h.sound h.unlinked

/-- To finish the output directory stays below it. -/
theorem encloses_finalize (h : Outlet base output top) {host host' : Host} {result : Except Failure Unit}
    (hfiles : h.below.Encloses host.files) (hrun : (Harvester.package.finalize output).run host = (result, host')) :
    h.below.Encloses host'.files := by
  cases Harvester.finishes_of_run hrun with
  | unmarked => exact hfiles
  | marked hwrite =>
    have hproper : Proper [Harvester.markerName] := by decide
    exact Region.under_writeText hfiles h.written h.points hproper hwrite

end Outlet

/-! ## Trees with a staging directory -/

/-- A tree with an output directory, and the path of a directory that is to be made where nothing stands. -/
structure Bench where
  base : FileSystem
  output : Path
  /-- Where the output directory is. -/
  top : Location
  outlet : Outlet base output top
  /-- The path of the staging root. -/
  path : Path
  /-- Where the staging root is. -/
  root : Location
  name : String
  written : path.Written
  proper : Proper [name]
  arrives : base.locate .keep ⟨path.anchor, path.names ++ [name]⟩ = .ok (root ++ [name])
  vacant : base.get? (root ++ [name]) = none

namespace Bench

open Region

variable {B : Bench} {fs t : FileSystem} {host host' : Host}

/-- Where the staging directory is made. -/
def place (B : Bench) : Location := B.root ++ [B.name]

/-- The path of the staging directory. -/
def directory (B : Bench) : Path := ⟨B.path.anchor, B.path.names ++ [B.name]⟩

/-- The tree in which the staging directory has been made. -/
def made (B : Bench) : FileSystem := B.base.put B.place .directory

/-- The path of the staging directory is written. -/
theorem written_directory (B : Bench) : B.directory.Written := by
  have hchild := B.written.child B.name
  rwa [Path.child_of_isName _ (B.proper _ (by simp)).1] at hchild

/-- The tree has grown by the staging directory. -/
theorem grown_made (B : Bench) : Grown B.base B.made :=
  B.outlet.sound.grown_put B.written_directory B.arrives B.vacant

/-- Nothing but the staging directory has been made. -/
theorem get?_made (B : Bench) (location : Location) :
    B.made.get? location = if B.place = location then some .directory else B.base.get? location :=
  get?_put _ location (not_isNameless_of_get?_none B.vacant)

/-- In the tree in which it was made, nothing is below the staging directory. -/
theorem none_below_made (B : Bench) {location : Location} (hl : Below B.place location)
    (hname : ¬isNameless location) : B.made.get? location = none := by
  rw [get?_made, if_neg hl.2.symm, B.outlet.sound.none_of_isPrefix B.vacant hl.1 hname]

/-- In the tree in which it was made, the staging directory stands where its path leads. -/
theorem locate_made (B : Bench) :
    B.made.locate .follow B.directory = .ok B.place ∧ B.made.get? B.place = some .directory :=
  (locate_put_directory B.arrives B.vacant).2

/-- The place of the staging directory is proper. -/
theorem proper_place (B : Bench) : Proper B.place :=
  (B.outlet.sound.free_place B.written_directory B.arrives (by simp [B.vacant])).1

/-- The path of the staging root points there. -/
theorem points (B : Bench) : B.base.Points B.path B.root := by
  obtain ⟨middle, hmiddle, he⟩ := exists_locate_of_concat B.arrives B.proper
  obtain rfl : B.root = middle := (List.append_left_inj _).1 he
  exact points_of_locate hmiddle

/-- The output directory is not in the staging directory, which is made when it is there. -/
theorem not_isPrefix_top (B : Bench) : ¬B.place <+: B.top := by
  intro hin
  have hname : ¬isNameless B.top := by
    refine B.outlet.proper.not_isNameless fun hnil => ?_
    rw [hnil] at hin
    exact absurd (List.prefix_nil.1 hin) (by simp [place])
  have hnone : B.base.get? B.top = none := B.outlet.sound.none_of_isPrefix B.vacant hin hname
  rw [B.outlet.there] at hnone
  cases hnone

/-- What is below the output directory, and the staging directory with what is below it. -/
def around (B : Bench) : Region B.base where
  zone l := Below B.top l ∨ B.place <+: l
  below := fun h hp => h.imp (fun hb => hb.of_isPrefix hp) fun hin => hin.trans hp
  unlinked := by
    intro location target hl hlink
    rcases hl with hbelow | hin
    · exact B.outlet.unlinked hbelow hlink
    · have hname : ¬isNameless location := not_isNameless_of_get?_ne (by rw [hlink]; simp)
      rw [B.outlet.sound.none_of_isPrefix B.vacant hin hname] at hlink
      cases hlink
  sound := B.outlet.sound

/-- In the tree in which it was made, no link is below the staging directory. -/
theorem unlinked_made (B : Bench) {location : Location} {target : String} (hl : Below B.place location) :
    B.made.get? location ≠ some (.link target) := by
  intro hlink
  have hname : ¬isNameless location := not_isNameless_of_get?_ne (by rw [hlink]; simp)
  rw [B.none_below_made hl hname] at hlink
  cases hlink

/-- What is below the staging directory once that is made. -/
def inside (B : Bench) : Region B.made :=
  .under (B.grown_made.sound B.outlet.sound) B.unlinked_made

/-- Around the staging directory nothing stood but what is below the output directory. -/
theorem around_zone (B : Bench) (location : Location) (hl : B.around.zone location) :
    Below B.top location ∨ B.base.get? location = none ∨ isNameless location := by
  rcases hl with hbelow | hin
  · exact .inl hbelow
  · by_cases hname : isNameless location
    · exact .inr (.inr hname)
    · exact .inr (.inl (B.outlet.sound.none_of_isPrefix B.vacant hin hname))

/-- The staging directory was made around itself. -/
theorem around_made (B : Bench) : B.around.Encloses B.made :=
  B.around.encloses_base.put (.inr (List.prefix_refl _)) (not_isNameless_of_get?_none B.vacant) (by simp)
    (B.grown_made.sound B.outlet.sound)

/-- What was changed inside the staging directory was changed around it. -/
theorem around_of_inside (h : B.inside.Encloses fs) : B.around.Encloses fs :=
  B.around_made.trans (h.mono fun _ hl => .inr hl.1)

/-! ## Inside the staging directory -/

/-- What stood when the staging directory was made stands whatever was changed inside it, as far as walks can tell. -/
theorem carries_of_inside (h : B.inside.Encloses fs) : Carries B.made fs := by
  intro location entry hentry
  by_cases hl : Below B.place location
  · -- nothing was below the directory when it was made
    by_cases hname : isNameless location
    · rw [get?_of_isNameless hname] at hentry ⊢
      cases hentry
      exact ⟨.directory, rfl, trivial⟩
    · rw [B.none_below_made hl hname] at hentry
      cases hentry
  · have hshape := h.untouched.shape hl
    unfold shapeAt at hshape
    rw [hentry] at hshape
    obtain ⟨other, hother, hlike⟩ := Option.map_eq_some_iff.1 hshape
    exact ⟨other, hother, alike_iff.2 hlike.symm⟩

/-- The working directory is where it was when the staging directory was made. -/
theorem working_of_inside (h : B.inside.Encloses fs) : fs.workingDirectory = B.base.workingDirectory :=
  h.standing fun hb => B.around.encloses_base.not_isPrefix_working B.vacant hb.1

/-- The staging directory stands where its path leads, whatever was changed inside it. -/
theorem locate_directory (h : B.inside.Encloses fs) :
    fs.locate .follow B.directory = .ok B.place ∧ fs.get? B.place = some .directory := by
  obtain ⟨hlocate, hthere⟩ := B.locate_made
  have hnow : fs.get? B.place = some .directory := h.directory (fun hb => hb.2 rfl) hthere
  exact ⟨locate_carried hlocate (carries_of_inside h) (startOf_eq (working_of_inside h) _) (by simp [hthere]), hnow⟩

/-- Saving code in the staging directory stays inside it. -/
theorem inside_saveFiles (h : B.inside.Encloses fs) {code : Emitter}
    (hcode : ∀ file ∈ code.files, Segmented file.1) {result : Except FileFailure (List Path)}
    (hrun : (code.saveFiles (.fromRoot B.place)).run fs = (result, t)) : B.inside.Encloses t :=
  under_saveFiles h B.locate_made.2 B.proper_place hcode hrun

/-- Writing the manifest into the staging directory stays inside it. -/
theorem inside_writeManifest (h : B.inside.Encloses fs) {text : String} {result : Except FileFailure Unit}
    (hrun : (writeText (B.directory.child Manifest.fileName) text).run fs = (result, t)) :
    B.inside.Encloses t :=
  under_writeText h B.written_directory (points_of_locate B.locate_made.1) Site.Desk.proper_manifest hrun

/-- A tool that is contained in the staging directory and makes no link stays inside it. -/
theorem inside_dispatch {c : Dispatch} (h : B.inside.Encloses c.before.files) (hc : c.Confined B.place)
    (hlinks : c.AddsNoLink) : B.inside.Encloses c.after.files := by
  refine h.trans ⟨hc.sound, hc.untouched, fun location target => ⟨hlinks location target, fun hlink => ?_⟩,
    hc.working ▸ .refl _, fun _ => hc.working⟩
  have hout : ¬Below B.place location := fun hl => h.unlinked hl hlink
  rw [← shapeAt_eq_link, hc.untouched.shape hout, shapeAt_eq_link, hlink]

/-! ## The harvest and the end -/

/-- The package for a source is in the staging directory and not moved into itself. -/
theorem not_isPrefix_harvest (B : Bench) (source : String) {more : Location}
    (hmore : more.length ≤ (placeOf source).length + 1) :
    ¬B.place ++ Site.Desk.sourcePlace source <+: B.top ++ more := by
  intro hin
  have hlength := hin.length_le
  simp only [List.length_append, Site.Desk.sourcePlace, List.length_cons] at hlength
  refine B.not_isPrefix_top (List.prefix_of_prefix_length_le ((List.prefix_append _ _).trans hin)
    (List.prefix_append _ _) ?_)
  omega

/-- The path of the staging directory, with what comes after it, leads there around the staging directory. -/
theorem fixed_directory (B : Bench) {ending : Ending} {more : Location} (hp : Proper more) :
    B.around.Fixed ending ⟨B.directory.anchor, B.directory.names ++ more⟩ (B.place ++ more) := by
  have hzone : ∀ l, l <+: B.name :: more → l ≠ [] → B.around.zone (B.root ++ l) := by
    intro l hl hnil
    obtain ⟨rest, rfl, -⟩ := (List.prefix_cons_iff.1 hl).resolve_left hnil
    exact Or.inr ⟨rest, by simp [place]⟩
  have hfixed : B.around.Fixed ending ⟨B.path.anchor, B.path.names ++ B.name :: more⟩
      (B.root ++ B.name :: more) := fixed_append B.points (by simp) (B.proper.append hp) hzone
  simpa [directory, place] using hfixed

/-- The harvest for a source moves within the region around the staging directory. -/
theorem movable (B : Bench) {source : String} (hsource : Segmented source) {more : Location} (hp : Proper more)
    (hne : more ≠ []) (hmore : more.length ≤ (placeOf source).length + 1) :
    B.around.Movable ⟨B.directory.anchor, B.directory.names ++ Site.Desk.sourcePlace source⟩
      ⟨B.output.anchor, B.output.names ++ more⟩ (B.place ++ Site.Desk.sourcePlace source) (B.top ++ more) where
  leads := B.fixed_directory (Site.Desk.proper_sourcePlace hsource)
  leadsTo := fixed_append B.outlet.points hne hp fun l _ hnil => .inl (below_append hnil)
  sourceWritten := fun name hname => (List.mem_append.1 hname).elim (B.written_directory name)
    fun hname => (Site.Desk.proper_sourcePlace hsource name hname).1
  written := fun name hname => (List.mem_append.1 hname).elim (B.outlet.written name) fun hname => (hp name hname).1
  sourceNamed := isProperlyNamed_append (Site.Desk.proper_sourcePlace hsource)
    (by simp [Site.Desk.sourcePlace])
  targetNamed := isProperlyNamed_append hp hne
  sourceZone := .inr (List.prefix_append _ _)
  targetZone := .inl (below_append hne)
  vacant := by
    refine B.outlet.sound.none_of_isPrefix B.vacant (List.prefix_append _ _) ?_
    exact (B.proper_place.append (Site.Desk.proper_sourcePlace hsource)).not_isNameless
      (by simp [Site.Desk.sourcePlace])
  named := (B.outlet.proper.append hp).not_isNameless fun he => hne (List.append_eq_nil_iff.1 he).2
  apart := B.not_isPrefix_harvest source hmore

/-- To clear a place of a region stays. -/
theorem stays_clearPlace {base : FileSystem} {R : Region base} {p : Path} {place : Location}
    (h : R.Fixed .keep p place) (hz : R.zone place) : R.Stays (Harvester.clearPlace p) :=
  Harvester.preserves_clearPlace (stays_removeTree h hz) (stays_unlink h hz)

/-- To make the directories that lead to the place of a source stays around the staging directory. -/
theorem stays_makeParents (B : Bench) {source : String} (hsource : Segmented source) :
    B.around.Stays (makeDirectories (⟨B.output.anchor, B.output.names ++ placeOf source⟩ : Path).parent) := by
  have hplace : Proper (placeOf source) := hsource.proper_placeOf
  have hne : placeOf source ≠ [] := hsource.placeOf_ne_nil
  have hwritten : (⟨B.output.anchor, B.output.names ++ placeOf source⟩ : Path).Written := fun name hname =>
    (List.mem_append.1 hname).elim (B.outlet.written name) fun hname => (hplace name hname).1
  -- the parent of the place is on the way to the output directory, or below it
  refine stays_makeDirectories hwritten.parent fun names hn => ?_
  have hparent : names <+: B.output.names ++ (placeOf source).dropLast := by
    rw [← List.dropLast_append_of_ne_nil hne]
    exact hn
  rcases List.prefix_or_prefix_of_prefix hparent (List.prefix_append _ _) with hway | ⟨more, rfl⟩
  · obtain ⟨middle, hmiddle, hd⟩ := B.outlet.way hway
    exact guarded_of_points hmiddle (hd.imp_right .inl)
  · have hmore : more <+: placeOf source :=
      ((List.prefix_append_right_inj _).1 hparent).trans (List.dropLast_prefix _)
    by_cases hnil : more = []
    · subst hnil
      obtain ⟨middle, hmiddle, hd⟩ := B.outlet.way (List.prefix_refl _)
      rw [List.append_nil]
      exact guarded_of_points hmiddle (hd.imp_right .inl)
    · have hfixed : B.around.Fixed .keep ⟨B.output.anchor, B.output.names ++ more⟩ (B.top ++ more) :=
        fixed_append B.outlet.points hnil (hplace.of_isPrefix hmore) fun l _ hl => .inl (below_append hl)
      exact hfixed.guarded (.inl (below_append hnil))

/-- Putting a package in the place of its source stays around the staging directory. -/
theorem stays_replacePlace (B : Bench) {source : String} (hsource : Segmented source) :
    B.around.Stays (Harvester.replacePlace
      ⟨B.directory.anchor, B.directory.names ++ Site.Desk.sourcePlace source⟩
      ⟨B.output.anchor, B.output.names ++ placeOf source⟩) := by
  have hplace : Proper (placeOf source) := hsource.proper_placeOf
  have hne : placeOf source ≠ [] := hsource.placeOf_ne_nil
  have hmove := B.movable hsource hplace hne (Nat.le_succ _)
  refine (stays_clearPlace hmove.leadsTo hmove.targetZone).bind fun _ =>
    (B.stays_makeParents hsource).bind fun _ => ?_
  -- what is moved keeps its last name in a directory
  have hlast : (⟨B.directory.anchor, B.directory.names ++ Site.Desk.sourcePlace source⟩ : Path).name =
      (placeOf source).getLast hne := by
    have hall : B.directory.names ++ Site.Desk.sourcePlace source =
        (B.directory.names ++ ["dist", "python", "src"]) ++ placeOf source := by
      simp [Site.Desk.sourcePlace]
    unfold Path.name
    rw [hall, List.getLastD_eq_getLast?, List.getLast?_append_of_ne_nil _ hne,
      List.getLast?_eq_some_getLast hne]
    rfl
  have hname : Proper [(placeOf source).getLast hne] := by
    intro name hmem
    rw [List.mem_singleton.1 hmem]
    exact hplace _ (List.getLast_mem hne)
  have hlastName : Path.IsName ((placeOf source).getLast hne) := (hname _ (List.mem_singleton_self _)).1
  have htarget := Path.child_of_isName ⟨B.output.anchor, B.output.names ++ placeOf source⟩ hlastName
  rw [← hlast] at htarget
  have hinto := B.movable hsource (hplace.append hname) (by simp) (by simp)
  rw [← List.append_assoc B.output.names, ← hlast, ← htarget] at hinto
  exact hmove.stays_move hinto

/-- A harvest from the staging directory stays around it. -/
theorem around_harvest (h : B.around.Encloses host.files) {source : String} (hsource : Segmented source)
    {result : Except Failure Path}
    (hrun : (Harvester.harvest B.directory B.output (importName source) .package).run host = (result, host')) :
    B.around.Encloses host'.files ∧ host'.temporary = host.temporary := by
  have hkeeps : Stays B.around
      (Harvester.replacePlace (Harvester.sourcePath B.directory (importName source)) (B.output.child (importName source))) := by
    rw [Site.Desk.sourcePath_eq _ hsource, hsource.child_importName]
    exact B.stays_replacePlace hsource
  cases Harvester.harvests_of_run hrun with
  | unseen | missing => exact ⟨h, rfl⟩
  | unmoved _ hreplace => exact ⟨hkeeps.of_run h hreplace, rfl⟩
  | moved _ hreplace hnoted =>
    obtain ⟨line, hline⟩ := hnoted.files
    rw [hline]
    exact ⟨(hkeeps.of_run h hreplace).writeHeld line, hnoted.temporary⟩

/-- Removing the staging directory changes nothing but what is at and below it, however it ends. -/
theorem enclosed_released (h : B.around.Encloses host.files) :
    Enclosed (B.place <+: ·) host.files (Staging.released B.directory host).files := by
  let R : Region host.files :=
    { zone := (B.place <+: ·)
      below := fun hin hp => hin.trans hp
      unlinked := fun hin => h.unlinked (.inr hin)
      sound := h.sound }
  have hfixed : R.Fixed .keep B.directory B.place := fun fs other hfs hl => by
    have hhere : B.around.Fixed .keep ⟨B.directory.anchor, B.directory.names ++ []⟩ (B.place ++ []) :=
      B.fixed_directory (by simp [Proper])
    rw [List.append_nil, List.append_nil] at hhere
    exact hhere fs other (h.trans (hfs.mono fun _ hin => .inr hin)) hl
  exact stays_removeTree hfixed (List.prefix_refl _) host.files R.encloses_base

/-- Removing the staging directory stays around it. -/
theorem around_released (h : B.around.Encloses host.files) :
    B.around.Encloses (Staging.released B.directory host).files :=
  h.trans ((enclosed_released h).mono fun _ hin => .inr hin)

/-- Making the staging root anew changes nothing but what is below the output directory, once a turn has found it. -/
theorem enclosed_rooted (ht : B.around.Encloses t) {parent : Option Path} {temporary : Path}
    (hp : (parent.getD temporary).Written)
    (hleads : B.base.locate .follow (parent.getD temporary) = .ok B.root)
    (hthere : B.base.get? B.root = some .directory) :
    Enclosed (Below B.top) t (Staging.rooted parent t) := by
  have houtlet : Outlet t B.output B.top := B.outlet.of_enclosed ht B.around_zone
  cases parent with
  | none => exact .refl ht.sound _
  | some path =>
    have hway : ∀ names, names <+: path.names → houtlet.below.Guarded ⟨path.anchor, names⟩ := by
      intro names hn
      obtain ⟨middle, hmiddle, hd⟩ := B.outlet.sound.points_of_isPrefix hleads hthere hn
      exact guarded_of_points (hmiddle.of_sameLinks ht.links ht.working)
        (Outlet.directory_or_below ht B.around_zone hd)
    exact stays_makeDirectories hp hway t houtlet.below.encloses_base

end Bench

/-! ## The turn of a name -/

/-- A staging directory is made on a bench, whose tree is the one with the staging root. -/
theorem Staging.exists_bench {parent : Option Path} {noted made : Host} {directory output : Path} {top : Location}
    (hs : noted.files.Sound) (hp : (parent.getD noted.temporary).Written)
    (houtlet : Outlet (rooted parent noted.files) output top)
    (hacquire : (acquire "get" parent).run noted = (.ok directory, made)) :
    ∃ B : Bench, B.base = rooted parent noted.files ∧ B.output = output ∧ B.top = top ∧ B.directory = directory ∧
      B.path = parent.getD noted.temporary ∧ made = { noted with files := B.made, staged := noted.staged + 1 } ∧
      B.base.locate .follow B.path = .ok B.root ∧ B.base.get? B.root = some .directory := by
  obtain ⟨root, files, hroot, hmake, rfl, rfl⟩ := run_acquire_ok hacquire
  obtain ⟨_, place, hroot', -, hleads, hthere, -, -⟩ := exists_root_of_acquire hs hp hacquire
  obtain rfl := hroot.eq_rooted
  obtain rfl := hroot'.eq_rooted
  unfold nextText at hmake ⊢
  -- which number the directory has does not matter
  generalize noted.staged + 1 + (rooted parent noted.files).scratchOffset "get"
    (parent.getD noted.temporary).text (noted.staged + 1) = n at hmake ⊢
  have hproper : Proper [scratchName "get" n] := Site.proper_scratchName n
  have hname : Path.IsName (scratchName "get" n) := (hproper _ (by simp)).1
  obtain ⟨-, free, htext, hfree, rfl⟩ := run_makeDirectoryAt_ok_iff.1 hmake
  have hlocate := locate_of_joinText hp hname htext
  rw [Path.child_of_isName _ hname] at hlocate
  obtain ⟨rfl, -⟩ := locate_keep_concat hleads hlocate hproper
  let B : Bench :=
    { base := rooted parent noted.files
      output, top
      outlet := houtlet
      path := parent.getD noted.temporary
      root := place
      name := scratchName "get" n
      written := hp
      proper := hproper
      arrives := hlocate
      vacant := hfree }
  refine ⟨B, rfl, rfl, rfl, ?_, rfl, rfl, hleads, hthere⟩
  exact ((Path.ofString_joinText hp hname).trans (Path.child_of_isName _ hname)).symm

namespace Getter

variable {g : Getter} {code : Emitter} {language : Language} {name source : String} {start stop : Host}
  {ds : List Dispatch}

/-- What is built in the staging directory stays inside it up to the harvest, and around it from then on. -/
theorem Built.around {B : Bench} {result : Except Failure Path}
    (h : Built g language .package B.output name source start ds result stop) (hsource : Segmented source)
    (hstart : B.inside.Encloses start.files)
    (hwhere : ∀ d ∈ ds, d.context.workingDirectory = B.directory.text)
    (hcs : ∀ c ∈ ds, c.Contained ∧ c.AddsNoLink) :
    B.around.Encloses stop.files ∧ stop.temporary = start.temporary ∧
      ∀ c ∈ ds, B.around.Encloses c.before.files ∧ B.around.Encloses c.after.files := by
  have hpath : ∀ d ∈ ds, Path.ofString d.context.workingDirectory = B.directory := fun d hd => by
    rw [hwhere d hd, Path.ofString_text B.written_directory]
  have htool : ∀ d ∈ ds, B.inside.Encloses d.before.files →
      B.inside.Encloses d.after.files ∧ d.after.temporary = d.before.temporary := by
    intro d hd hbefore
    obtain ⟨hcontained, hlinks⟩ := hcs d hd
    have hconfined : d.Confined B.place :=
      hcontained B.place (by rw [hpath d hd, (Bench.locate_directory hbefore).1])
    exact ⟨Bench.inside_dispatch hbefore hconfined hlinks, hconfined.temporary⟩
  have hharvest : ∀ {e : Dispatch} {result : Except Failure Path} {host : Host}, e ∈ ds →
      B.inside.Encloses e.after.files → harvestAfter .package B.output source e = (result, host) →
      B.around.Encloses host.files ∧ host.temporary = e.after.temporary := by
    intro e result host he hafter hrun
    unfold harvestAfter at hrun
    rw [hpath e he] at hrun
    exact Bench.around_harvest (Bench.around_of_inside hafter) hsource hrun
  -- two tools, of which the second starts where the first ended
  have hboth : ∀ {d e : Dispatch}, d ∈ ds → e ∈ ds → e.before = d.after → B.inside.Encloses d.before.files →
      B.inside.Encloses d.after.files ∧ B.inside.Encloses e.after.files ∧
        e.after.temporary = d.before.temporary := by
    intro d e hd he hnext hbefore
    obtain ⟨hafter, htemporary⟩ := htool d hd hbefore
    obtain ⟨hlast, htemporary'⟩ := htool e he (by rwa [hnext])
    exact ⟨hafter, hlast, by rw [htemporary', hnext, htemporary]⟩
  have hpair : ∀ {d e : Dispatch}, e.before = d.after → B.inside.Encloses d.before.files →
      B.inside.Encloses d.after.files → B.inside.Encloses e.after.files → ∀ c ∈ [d, e],
        B.around.Encloses c.before.files ∧ B.around.Encloses c.after.files := by
    intro d e hnext hbefore hafter hlast c hc
    rcases List.mem_pair.1 hc with rfl | rfl
    · exact ⟨Bench.around_of_inside hbefore, Bench.around_of_inside hafter⟩
    · rw [hnext]
      exact ⟨Bench.around_of_inside hafter, Bench.around_of_inside hlast⟩
  cases h with
  | @compileFailed d hd hfail =>
    obtain ⟨hafter, htemporary⟩ := htool d (by simp) hstart
    refine ⟨Bench.around_of_inside hafter, htemporary, fun c hc => ?_⟩
    obtain rfl := List.mem_singleton.1 hc
    exact ⟨Bench.around_of_inside hstart, Bench.around_of_inside hafter⟩
  | @packageFailed d e hd hok he hfail =>
    obtain ⟨hafter, hlast, htemporary⟩ := hboth (by simp) (by simp) he.before hstart
    exact ⟨Bench.around_of_inside hlast, htemporary, hpair he.before hstart hafter hlast⟩
  | @harvestFailed d e failure host hd hok he hok' hfail =>
    obtain ⟨hafter, hlast, htemporary⟩ := hboth (by simp) (by simp) he.before hstart
    obtain ⟨hstop, hend⟩ := hharvest (by simp) hlast hfail
    exact ⟨hstop, hend.trans htemporary, hpair he.before hstart hafter hlast⟩
  | @harvested d e path host hd hok he hok' hrun =>
    obtain ⟨hafter, hlast, htemporary⟩ := hboth (by simp) (by simp) he.before hstart
    obtain ⟨hstop, hend⟩ := hharvest (by simp) hlast hrun
    exact ⟨hstop, hend.trans htemporary, hpair he.before hstart hafter hlast⟩

/-- What happens to a name in its staging directory stays around that. -/
theorem Staged.around {B : Bench} {result : Except Failure Path}
    (h : Staged g code language .package B.output name source B.directory start ds result stop)
    (hsource : Segmented source) (hcode : ∀ file ∈ code.files, Segmented file.1)
    (hstart : B.inside.Encloses start.files) (hcs : ∀ c ∈ ds, c.Contained ∧ c.AddsNoLink) :
    B.around.Encloses stop.files ∧ stop.temporary = start.temporary ∧
      ∀ c ∈ ds, B.around.Encloses c.before.files ∧ B.around.Encloses c.after.files := by
  have hroot : ∀ {root}, (Host.resolve B.directory).run start = (.ok root, start) → root = .fromRoot B.place := by
    intro root hresolve
    obtain ⟨-, -, -, rfl, -⟩ := run_resolve_ok_iff.1 hresolve
    exact resolve_eq (Bench.locate_directory hstart).1
  cases h with
  | unresolved _ => exact ⟨Bench.around_of_inside hstart, rfl, by simp⟩
  | unsaved hresolve hsave =>
    rw [hroot hresolve] at hsave
    exact ⟨Bench.around_of_inside (Bench.inside_saveFiles hstart hcode hsave), rfl, by simp⟩
  | unmanifested hresolve hsave hmanifest =>
    rw [hroot hresolve] at hsave
    have hsaved := Bench.inside_saveFiles hstart hcode hsave
    exact ⟨Bench.around_of_inside (Bench.inside_writeManifest hsaved hmanifest), rfl, by simp⟩
  | built hresolve hsave hmanifest hwhere hbuilt =>
    rw [hroot hresolve] at hsave
    have hsaved := Bench.inside_saveFiles hstart hcode hsave
    exact hbuilt.around hsource (Bench.inside_writeManifest hsaved hmanifest) hwhere hcs

/-- A turn makes a staging directory and stays around it, or ends where none can be made. -/
theorem Turn.around {output : Path} {top : Location} {result : Except Failure Path}
    (h : Turn g code language .package output name source start ds result stop) (hsource : Segmented source)
    (hcode : ∀ file ∈ code.files, Segmented file.1) (hs : start.files.Sound)
    (hp : (g.stagingRoot.getD start.temporary).Written)
    (houtlet : Outlet (Staging.rooted g.stagingRoot start.files) output top)
    (hcs : ∀ c ∈ ds, c.Contained ∧ c.AddsNoLink) :
    (ds = [] ∧ (∃ failure, result = .error failure) ∧
        stop = { start with files := Staging.rooted g.stagingRoot start.files }) ∨
      ∃ (B : Bench) (made : Host), B.base = Staging.rooted g.stagingRoot start.files ∧ B.top = top ∧
        (Staging.acquire "get" g.stagingRoot).run start = (.ok B.directory, made) ∧ made.files = B.made ∧
        B.base.locate .follow (g.stagingRoot.getD start.temporary) = .ok B.root ∧
        B.base.get? B.root = some .directory ∧
        B.around.Encloses stop.files ∧ stop.temporary = start.temporary ∧
        ∀ c ∈ ds, B.around.Encloses c.before.files ∧ B.around.Encloses c.after.files := by
  cases h with
  | unstaged hacquire => exact .inl ⟨rfl, ⟨_, rfl⟩, Staging.run_acquire_error hacquire⟩
  | @staged directory made ds result stop hacquire hstaged =>
    obtain ⟨B, hbase, rfl, rfl, rfl, hpath, rfl, hleads, hthere⟩ := Staging.exists_bench hs hp houtlet hacquire
    obtain ⟨hstop, htemporary, hds⟩ := hstaged.around hsource hcode B.inside.encloses_base hcs
    exact .inr ⟨B, _, hbase, rfl, hacquire, rfl, hpath ▸ hleads, hthere, Bench.around_released hstop, htemporary, hds⟩

end Getter

end ProviderBindings
