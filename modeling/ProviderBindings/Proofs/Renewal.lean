import ProviderBindings.Proofs.Containment
import ProviderBindings.Proofs.Landing

/-!
# Output that is renewed

What a request for Python leaves in its output directory does not depend on what was there. The tools are taken to
leave in their working directories what their actions tell and what they find there (`Dispatch.Follows`), so that the
package for a source is a function of the request (`Getter.package`). A turn that comes to its end puts that package in
its place, and touches nothing else in the output directory but for the directories that lead there
(`FileSystem.Placed`). As packages are put one after another, also in or above the places of earlier ones, what is at
and below their places is told by the packages alone (`View.landAll_of_covered`), and everything that is apart from
them is as it was.

So two runs leave the same at the paths that they return, whatever the two hosts were like, and a second run after the
first leaves the output directory as it was (`run_get_renews`). That the second run finds the output directory and the
staging root where the first did needs no assumption: a turn that succeeds did not take away what their paths lead
through (`Bench.Landed.leads`).
-/

namespace ProviderBindings

open FileSystem

/-! ## Packages put into a view -/

namespace View

/-- The view with a package put at a place, in place of what was there, and directories that lead there. -/
def land (view : View) (package : Location × View) : View := fun rest =>
  if package.1 <+: rest then package.2 (rest.drop package.1.length)
  else if rest <+: package.1 then some .directory
  else view rest

/-- The view with packages put at their places one after another. -/
def landAll (view : View) (packages : List (Location × View)) : View :=
  packages.foldl land view

variable {view other : View} {packages : List (Location × View)} {rest : Location}

/-- A place is at or below those of packages, or above them, or apart from all of them. -/
theorem covered_or_above_or_apart (packages : List (Location × View)) (rest : Location) :
    (∃ p ∈ packages, p.1 <+: rest) ∨
      ((∀ p ∈ packages, ¬p.1 <+: rest) ∧ ∃ p ∈ packages, rest <+: p.1) ∨
      ∀ p ∈ packages, ¬p.1 <+: rest ∧ ¬rest <+: p.1 := by
  by_cases hin : ∃ p ∈ packages, p.1 <+: rest
  · exact .inl hin
  · have hout : ∀ p ∈ packages, ¬p.1 <+: rest := fun p hp hle => hin ⟨p, hp, hle⟩
    by_cases hway : ∃ p ∈ packages, rest <+: p.1
    · exact .inr (.inl ⟨hout, hway⟩)
    · exact .inr (.inr fun p hp => ⟨hout p hp, fun hle => hway ⟨p, hp, hle⟩⟩)

/-- What is apart from the places of packages is as it was. -/
theorem landAll_of_apart (h : ∀ p ∈ packages, ¬p.1 <+: rest ∧ ¬rest <+: p.1) :
    view.landAll packages rest = view rest := by
  induction packages generalizing view with
  | nil => rfl
  | cons p packages ih =>
    obtain ⟨hin, hway⟩ := h p List.mem_cons_self
    show (view.land p).landAll packages rest = view rest
    rw [ih fun q hq => h q (List.mem_cons_of_mem _ hq)]
    unfold land
    rw [if_neg hin, if_neg hway]

/-- Directories lead to the places of packages, where no package is put at or above them. -/
theorem landAll_of_above (hout : ∀ p ∈ packages, ¬p.1 <+: rest) (h : ∃ p ∈ packages, rest <+: p.1) :
    view.landAll packages rest = some .directory := by
  induction packages generalizing view with
  | nil => simp at h
  | cons p packages ih =>
    have hrest : ∀ q ∈ packages, ¬q.1 <+: rest := fun q hq => hout q (List.mem_cons_of_mem _ hq)
    show (view.land p).landAll packages rest = some .directory
    by_cases hlater : ∃ q ∈ packages, rest <+: q.1
    · exact ih hrest hlater
    · have hway : rest <+: p.1 := by
        obtain ⟨q, hq, hway⟩ := h
        rcases List.mem_cons.1 hq with rfl | hq
        · exact hway
        · exact absurd ⟨q, hq, hway⟩ hlater
      rw [landAll_of_apart fun q hq => ⟨hrest q hq, fun hq' => hlater ⟨q, hq, hq'⟩⟩]
      unfold land
      rw [if_neg (hout p List.mem_cons_self), if_pos hway]

/-- What is at or below the place of a package does not depend on what was there before. -/
theorem landAll_of_covered (h : ∃ p ∈ packages, p.1 <+: rest) :
    view.landAll packages rest = other.landAll packages rest := by
  induction packages generalizing view other with
  | nil => simp at h
  | cons p packages ih =>
    show (view.land p).landAll packages rest = (other.land p).landAll packages rest
    rcases covered_or_above_or_apart packages rest with hlater | ⟨hout, habove⟩ | hapart
    · exact ih hlater
    · rw [landAll_of_above hout habove, landAll_of_above hout habove]
    · have hin : p.1 <+: rest := by
        obtain ⟨q, hq, hin⟩ := h
        rcases List.mem_cons.1 hq with rfl | hq
        · exact hin
        · exact absurd hin (hapart q hq).1
      rw [landAll_of_apart hapart, landAll_of_apart hapart]
      unfold land
      rw [if_pos hin, if_pos hin]

/-- A package that was put in its place is there. -/
theorem landAll_singleton_append (view : View) (place : Location) (package : View) (rest : Location) :
    view.landAll [(place, package)] (place ++ rest) = package rest := by
  simp only [landAll, List.foldl_cons, List.foldl_nil, land]
  rw [if_pos (List.prefix_append _ _), List.drop_left]

/-! ## What is written again -/

variable {place : Location} {text : String}

/-- What stands beside a place where a text is written is told by what stood there. -/
theorem write_congr (hne : rest ≠ place) (h : view rest = other rest) :
    view.write place text rest = other.write place text rest := by
  unfold write
  rw [if_neg hne, if_neg hne, h]

/-- To write a text again changes nothing. -/
theorem write_of_eq (h : view rest = other.write place text rest) : view.write place text rest = view rest := by
  unfold write at h ⊢
  split
  · next heq =>
    subst heq
    rw [if_pos rfl] at h
    rw [h]
    rfl
  · next hne =>
    rw [if_neg hne] at h
    split
    · next hway => rw [h, if_pos hway]
    · rfl

/-- Nor does it as far as shapes go. -/
theorem shape_write_of_eq (h : (view rest).map Entry.shape = (other.write place text rest).map Entry.shape) :
    (view.write place text rest).map Entry.shape = (view rest).map Entry.shape := by
  unfold write at h ⊢
  split
  · next heq =>
    subst heq
    rw [h, if_pos rfl]
    rfl
  · next hne =>
    rw [if_neg hne] at h
    split
    · next hway => rw [h, if_pos hway]
    · rfl

end View

/-! ## Packages put into a directory -/

namespace FileSystem

variable {fs t u v w : FileSystem} {top : Location} {packages more : List (Location × View)}

/-- Whether packages were put at places below a directory, one after another, and nothing else in the directory was
touched. -/
structure Placed (top : Location) (packages : List (Location × View)) (fs t : FileSystem) : Prop where
  /-- What is at and below the places is what the packages hold. -/
  arrived : ∀ {rest}, (∃ p ∈ packages, p.1 <+: rest) → t.get? (top ++ rest) = View.empty.landAll packages rest
  /-- Directories lead to the places. -/
  above : ∀ {rest}, (∀ p ∈ packages, ¬p.1 <+: rest) → (∃ p ∈ packages, rest <+: p.1) →
    t.get? (top ++ rest) = some .directory
  /-- Nothing else in the directory was touched. -/
  beside : Untouched (fun l => ∃ rest, l = top ++ rest ∧ ∀ p ∈ packages, ¬p.1 <+: rest ∧ ¬rest <+: p.1) fs t
  /-- The log file is in none of the places. -/
  log : ∀ {rest}, t.held = some (top ++ rest) → ∀ p ∈ packages, ¬p.1 <+: rest

/-- No package was put where nothing was touched. -/
theorem Untouched.placed (h : Untouched (top <+: ·) fs t) : Placed top [] fs t := by
  refine ⟨fun h => by simp at h, fun _ h => by simp at h, h.mono ?_, fun _ p hp => by simp at hp⟩
  rintro _ ⟨rest, rfl, -⟩
  exact List.prefix_append _ _

/-- Packages that were put after others are put with them. -/
theorem Placed.trans (h : Placed top packages fs t) (ht : Placed top more t u) :
    Placed top (packages ++ more) fs u := by
  have hall : ∀ view : View, view.landAll (packages ++ more) = (view.landAll packages).landAll more :=
    fun _ => List.foldl_append
  refine ⟨fun {rest} hin => ?_, fun {rest} hout hway => ?_, ?_, fun {rest} hl p hp => ?_⟩
  -- a place is told by the later packages where they reach it, and else it is as the earlier ones left it
  · rw [hall]
    rcases View.covered_or_above_or_apart more rest with hlast | ⟨hout, hway⟩ | hapart
    · rw [ht.arrived hlast, View.landAll_of_covered hlast]
    · rw [ht.above hout hway, View.landAll_of_above hout hway]
    · have hfirst : ∃ p ∈ packages, p.1 <+: rest := by
        obtain ⟨p, hp, hin⟩ := hin
        rcases List.mem_append.1 hp with hp | hp
        · exact ⟨p, hp, hin⟩
        · exact absurd hin (hapart p hp).1
      have hlog : t.held ≠ some (top ++ rest) := by
        obtain ⟨p, hp, hin⟩ := hfirst
        exact fun hl => h.log hl p hp hin
      rw [View.landAll_of_apart hapart, ht.beside.same ⟨rest, rfl, hapart⟩ hlog, h.arrived hfirst]
  · rcases View.covered_or_above_or_apart more rest with ⟨p, hp, hin⟩ | ⟨hout', hlast⟩ | hapart
    · exact absurd hin (hout p (List.mem_append_right _ hp))
    · exact ht.above hout' hlast
    · have hfirst : ∃ p ∈ packages, rest <+: p.1 := by
        obtain ⟨p, hp, hin⟩ := hway
        rcases List.mem_append.1 hp with hp | hp
        · exact ⟨p, hp, hin⟩
        · exact absurd hin (hapart p hp).2
      have hdir := h.above (fun p hp => hout p (List.mem_append_left _ hp)) hfirst
      rw [← shapeAt_eq_directory, ht.beside.shape ⟨rest, rfl, hapart⟩, shapeAt_eq_directory, hdir]
  · refine (h.beside.mono fun l hl => ?_).trans (ht.beside.mono fun l hl => ?_)
    · obtain ⟨rest, rfl, hapart⟩ := hl
      exact ⟨rest, rfl, fun p hp => hapart p (List.mem_append_left _ hp)⟩
    · obtain ⟨rest, rfl, hapart⟩ := hl
      exact ⟨rest, rfl, fun p hp => hapart p (List.mem_append_right _ hp)⟩
  · rcases List.mem_append.1 hp with hp | hp
    · exact h.log (ht.beside.held hl) p hp
    · exact ht.log hl p hp

/-- When packages are put into a directory again in which the same packages were put, and a file is written there
again that is apart from them, nothing in the directory is touched. -/
theorem Placed.untouched_again (h : Placed top packages fs t) {place : Location} {text : String}
    (hu : u.view top = (t.view top).write place text) (h' : Placed top packages u v)
    (hw : w.view top = (v.view top).write place text) (hheld : w.held = v.held)
    (hplace : ∀ p ∈ packages, ¬p.1 <+: place ∧ ¬place <+: p.1) : Untouched (top <+: ·) u w := by
  -- what is in a package or on the way to one is the same again, and what is apart from them is kept
  have hcases : ∀ rest, w.get? (top ++ rest) = u.get? (top ++ rest) ∨
      ∀ p ∈ packages, ¬p.1 <+: rest ∧ ¬rest <+: p.1 := by
    intro rest
    rcases View.covered_or_above_or_apart packages rest with hin | ⟨hout, hway⟩ | hapart
    · have hne : rest ≠ place := by
        rintro rfl
        obtain ⟨p, hp, hin⟩ := hin
        exact (hplace p hp).1 hin
      refine .inl ((congrFun hw rest).trans ((View.write_congr hne ?_).trans (congrFun hu rest).symm))
      exact (h'.arrived hin).trans (h.arrived hin).symm
    · have hne : rest ≠ place := by
        rintro rfl
        obtain ⟨p, hp, hway⟩ := hway
        exact (hplace p hp).2 hway
      refine .inl ((congrFun hw rest).trans ((View.write_congr hne ?_).trans (congrFun hu rest).symm))
      exact (h'.above hout hway).trans (h.above hout hway).symm
    · exact .inr hapart
  refine ⟨?_, ?_, fun hl => h'.beside.held (by rwa [hheld] at hl)⟩
  · rintro _ ⟨rest, rfl⟩ hlog
    rcases hcases rest with hsame | hapart
    · exact hsame
    · have hkept : v.view top rest = u.view top rest := h'.beside.same ⟨rest, rfl, hapart⟩ hlog
      rw [hu] at hkept
      exact (congrFun hw rest).trans ((View.write_of_eq hkept).trans (hkept.trans (congrFun hu rest).symm))
  · rintro _ ⟨rest, rfl⟩
    rcases hcases rest with hsame | hapart
    · unfold shapeAt
      rw [hsame]
    · have hkept : (v.view top rest).map Entry.shape = (u.view top rest).map Entry.shape :=
        h'.beside.shape ⟨rest, rfl, hapart⟩
      show (w.view top rest).map Entry.shape = (u.view top rest).map Entry.shape
      rw [hu] at hkept ⊢
      rw [hw, View.shape_write_of_eq hkept, hkept]

end FileSystem

/-- A turn that has settled put its package into the output directory. -/
theorem Bench.Settled.placed {B : Bench} {source : String} {package : View} {t : FileSystem}
    (h : B.Settled source package t) : Placed B.top [(placeOf source, package)] B.base t := by
  refine ⟨fun {rest} hin => ?_, fun {rest} hout hway => ?_, h.beside.mono ?_, fun {rest} hl => ?_⟩
  · simp only [List.mem_singleton, exists_eq_left] at hin
    obtain ⟨more, rfl⟩ := hin
    rw [h.arrived, View.landAll_singleton_append]
  · simp only [List.mem_singleton, forall_eq] at hout
    simp only [List.mem_singleton, exists_eq_left] at hway
    refine h.above ((List.prefix_append_right_inj _).2 hway) fun he => hout ?_
    rw [List.append_cancel_left he]
  · rintro _ ⟨rest, rfl, hapart⟩
    simp only [List.mem_singleton, forall_eq] at hapart
    exact ⟨List.prefix_append _ _, fun hp => hapart.1 ((List.prefix_append_right_inj _).1 hp),
      fun hp => hapart.2 ((List.prefix_append_right_inj _).1 hp)⟩
  · simp only [List.mem_singleton, forall_eq]
    exact fun hin => h.log hl ((List.prefix_append_right_inj _).2 hin)

/-! ## What stands at a path -/

/-- What stands at and below a place of a view, if anything stands there. -/
def View.subtree? (view : View) (place : Location) : Option View :=
  if (view place).isSome then some fun rest => view (place ++ rest) else none

/-- What stands at and below where a path leads, if anything stands there. -/
def FileSystem.subtree? (fs : FileSystem) (p : Path) : Option View :=
  match fs.locate .follow p with
  | .ok place => View.subtree? fs.get? place
  | .error _ => none

/-- What stands at the path of a directory with names after it on which no link stands is what stands there. -/
theorem FileSystem.Sound.subtree?_append {fs : FileSystem} (hs : fs.Sound) {p : Path} {top more : Location}
    (hl : fs.locate .follow p = .ok top) (hd : fs.get? top = some .directory) (htop : Proper top) (hp : Proper more)
    (hne : more ≠ []) (hlinks : fs.LinkFree top more)
    (hsize : (⟨p.anchor, p.names ++ more⟩ : Path).text.utf8ByteSize ≤ maxPathSize) :
    fs.subtree? ⟨p.anchor, p.names ++ more⟩ = View.subtree? fs.get? (top ++ more) := by
  unfold subtree?
  cases hentry : fs.get? (top ++ more) with
  | some entry =>
    have hlocate : fs.locate .follow ⟨p.anchor, p.names ++ more⟩ = .ok (top ++ more) := by
      refine hs.locate_append hl hd htop hp hne hentry ?_ hsize
      rintro target rfl
      exact hlinks (List.prefix_refl _) hne target hentry
    rw [hlocate]
  | none =>
    -- nothing stands there, whether or not the path leads there
    have hnone : View.subtree? fs.get? (top ++ more) = none := by
      unfold View.subtree?
      rw [hentry]
      rfl
    rw [hnone]
    cases hlocate : fs.locate .follow ⟨p.anchor, p.names ++ more⟩ with
    | error e => rfl
    | ok place =>
      obtain ⟨rfl, -⟩ := locate_append_inv hl hlocate hne hp hlinks
      exact hnone

/-! ## The turns of names -/

namespace Getter

variable {g : Getter} {request : Request} {code : Emitter} {name source : String} {output : Path} {top : Location}
  {start middle stop : Host} {ds : List Dispatch} {act : Action → View → View}
  {packages more : List (Location × View)}

/-- Whether turns that put packages into the output directory lead from one host to another. -/
structure Delivered (g : Getter) (output : Path) (top : Location) (packages : List (Location × View))
    (start stop : Host) : Prop where
  /-- The next turn can start. -/
  ready : g.Ready output top stop
  /-- The packages were put in their places. -/
  placed : Placed top packages (Staging.rooted g.stagingRoot start.files) (Staging.rooted g.stagingRoot stop.files)
  /-- The same links stand at the same places. -/
  links : SameLinks (Staging.rooted g.stagingRoot start.files) (Staging.rooted g.stagingRoot stop.files)
  /-- The working directory is where it was, or was detached from there. -/
  working : Detached (Staging.rooted g.stagingRoot start.files).workingDirectory
    (Staging.rooted g.stagingRoot stop.files).workingDirectory
  /-- The paths of the packages are not too long. -/
  fits : ∀ p ∈ packages, (⟨output.anchor, output.names ++ p.1⟩ : Path).text.utf8ByteSize ≤ maxPathSize

/-- Turns after others deliver packages after theirs. -/
theorem Delivered.trans (h : g.Delivered output top packages start middle)
    (ht : g.Delivered output top more middle stop) : g.Delivered output top (packages ++ more) start stop :=
  ⟨ht.ready, h.placed.trans ht.placed, h.links.trans ht.links,
    h.working.trans ht.working, fun p hp => (List.mem_append.1 hp).elim (h.fits p) (ht.fits p)⟩

/-- What is noted delivers nothing. -/
theorem Ready.noted (h : g.Ready output top start) (hnoted : Noted start stop) :
    g.Delivered output top [] start stop := by
  obtain ⟨line, hline⟩ := hnoted.files
  have htemporary : stop.temporary = start.temporary := hnoted.temporary
  have hparent := Staging.written_of_getD h.written
  have hsame : Same (Staging.rooted g.stagingRoot start.files) (Staging.rooted g.stagingRoot stop.files) :=
    Staging.rooted_same hparent (hline ▸ h.sound.same_of_writeHeld line)
  have hsound : stop.files.Sound := hline ▸ h.sound.writeHeld line
  have hlocate : ∀ p : Path, (Staging.rooted g.stagingRoot stop.files).locate .follow p =
      (Staging.rooted g.stagingRoot start.files).locate .follow p := fun p =>
    locate_eq_of_same hsame.shape (startOf_eq hsame.working p)
  have houtlet : Outlet (Staging.rooted g.stagingRoot stop.files) output top :=
    h.outlet.of_enclosed (hsame.enclosed ((Staging.grown_rooted hsound hparent).sound hsound) (Below top))
      fun _ hl => .inl hl
  refine ⟨⟨hsound, htemporary ▸ h.written, houtlet, h.absolute, h.proper, h.faultless, ?_, fun hroot => ?_⟩,
    hsame.untouched.placed, hsame.sameLinks, hsame.working ▸ .refl _, fun p hp => by simp at hp⟩
  -- the log file alone was added to, and no path leads anywhere else for that
  · rw [hlocate, h.leads]
  · rw [hlocate, htemporary] at hroot
    exact h.apart hroot

/-- A turn that comes to its end delivers its package, and the staging root is there then. -/
theorem Turn.delivered {path : Path} (h : Turn g code .python .package output name source start ds (.ok path) stop)
    (hready : g.Ready output top start) (hsource : Segmented source)
    (hcode : ∀ file ∈ code.files, Segmented file.1) (hcs : ∀ c ∈ ds, c.Regular act) :
    g.Delivered output top [(placeOf source, g.package act code source)] start stop ∧ g.RootThere stop := by
  obtain ⟨B, hbase, rfl, rfl, hpath, hsteady, hsettled, htemporary, hthere⟩ :=
    h.settled hready hsource hcode hcs
  have hwritten : (g.stagingRoot.getD stop.temporary).Written := htemporary ▸ hready.written
  have hrooted := hthere.rooted hwritten
  have houtlet : Outlet stop.files B.output B.top := B.outlet.of_enclosed hsettled.around B.around_zone
  refine ⟨⟨⟨hsettled.around.sound, hwritten, hrooted.symm ▸ houtlet, hready.absolute, hready.proper,
    hready.faultless, ?_, fun hroot => ?_⟩, ?_, ?_, ?_, ?_⟩, hthere⟩
  · rw [hrooted, hsettled.leads]
  · rw [hrooted, htemporary, ← hpath, hsettled.rootLeads] at hroot
    cases hroot
    exact hsteady.apart
  · rw [hrooted, ← hbase]
    exact hsettled.placed
  · rw [hrooted, ← hbase]
    exact hsettled.around.links
  · rw [hrooted, ← hbase]
    exact hsettled.around.working
  · simpa only [List.mem_singleton, forall_eq] using hsettled.fits

/-- The packages for constraints, at the places of their sources. -/
def packagesOf (g : Getter) (act : Action → View → View) (code : Emitter) (kind : TargetKind) (cs : List Constraint) :
    List (Location × View) :=
  cs.map fun c => (placeOf (c.source kind), g.package act code (c.source kind))

/-- What is at or below the place of the source of a constraint is at or below that of a package. -/
theorem exists_isPrefix_packagesOf {kind : TargetKind} {cs : List Constraint} {c : Constraint} (hc : c ∈ cs)
    {rest : Location} (h : placeOf (c.source kind) <+: rest) : ∃ p ∈ g.packagesOf act code kind cs, p.1 <+: rest := by
  simp only [packagesOf, List.mem_map, exists_exists_and_eq_and]
  exact ⟨c, hc, h⟩

/-- Turns that all come to their ends deliver the packages for their names, and the staging root is there then. -/
theorem Turns.delivered {names : List String} {cs : List Constraint} {paths : List Path}
    (h : Turns g code request .package output names start ds (.ok paths) stop) (hpython : request.language = .python)
    (hnames : names.map Constraint.resolve = cs.map .ok) (hready : g.Ready output top start)
    (hcode : ∀ file ∈ code.files, Segmented file.1) (hcs : ∀ c ∈ ds, c.Regular act) :
    g.Delivered output top (g.packagesOf act code request.kind cs) start stop ∧
      (names ≠ [] → g.RootThere stop) := by
  generalize hresult : (Except.ok paths : Except Failure (List Path)) = result at h
  -- on the turns; each starts on a host that is ready, as the one before it left it
  induction h generalizing cs paths with
  | @done host =>
    cases hresult
    obtain rfl : cs = [] := by simpa using hnames.symm
    exact ⟨⟨hready, (Untouched.refl _ _).placed, .refl _, .refl _, fun p hp => by simp [packagesOf] at hp⟩,
      fun hne => absurd rfl hne⟩
  | stopped => cases hresult
  | @passed name rest c start noted middle ds es path result stop hc hnoted hturn hrest ih =>
    cases cs with
    | nil => simp at hnames
    | cons d cs =>
      simp only [List.map_cons, List.cons.injEq] at hnames
      obtain rfl : c = d := Except.ok.inj (hc.symm.trans hnames.1)
      cases result with
      | error failure => cases hresult
      | ok others =>
        have hfirst := hready.noted hnoted
        rw [hpython] at hturn
        obtain ⟨hone, hthere⟩ := hturn.delivered hfirst.ready (Constraint.segmented_of_resolve hc request.kind) hcode
          fun c hc => hcs c (List.mem_append_left _ hc)
        obtain ⟨hothers, hlast⟩ := ih hnames.2 hone.ready (fun c hc => hcs c (List.mem_append_right _ hc)) rfl
        refine ⟨(hfirst.trans hone).trans hothers, fun _ => ?_⟩
        by_cases hnil : rest = []
        · subst hnil
          generalize hend : (Except.ok others : Except Failure (List Path)) = outcome at hrest
          cases hrest
          exact hthere
        · exact hlast hnil

/-- Whether the marker was written into an output directory, and nothing else was changed there. -/
structure Marked (top : Location) (fs t : FileSystem) : Prop where
  /-- Nothing was taken away. -/
  filled : Filled fs t
  /-- Nothing but what is below the output directory was changed. -/
  enclosed : Enclosed (Below top) fs t
  /-- The marker is empty there, and the rest is as it was. -/
  view : t.view top = (fs.view top).write [Harvester.markerName] ""

/-- Finishing the output directory writes the marker there. -/
theorem run_finalize_ok (h : Outlet start.files output top) (hleads : start.files.locate .follow output = .ok top)
    (hrun : (Harvester.package.finalize output).run start = (.ok (), stop)) :
    Marked top start.files stop.files ∧ stop.temporary = start.temporary := by
  have hbelow := h.encloses_finalize h.below.encloses_base hrun
  cases Harvester.finishes_of_run hrun with | marked hwrite => ?_
  have hname : Proper [Harvester.markerName] := by decide
  have hunlinked := h.sound.unlinked h.there h.proper h.unlinked
  obtain ⟨-, hview⟩ := run_writeText_below h.sound h.written hleads h.there hunlinked h.proper hname hwrite
  obtain ⟨hfilled, -⟩ := run_writeText_ok h.sound (h.written.child _) hwrite
  exact ⟨⟨hfilled, hbelow, hview⟩, rfl⟩

/-- Turns can start again when the output directory was finished, and the staging root is there still. -/
theorem Ready.marked (h : g.Ready output top start) (hthere : g.RootThere start)
    (hmarked : Marked top start.files stop.files) (htemporary : stop.temporary = start.temporary) :
    g.Ready output top stop ∧ g.RootThere stop := by
  have hrooted := hthere.rooted h.written
  obtain ⟨hfault, root, hroot, hdir⟩ := isDirectory_eq_true_iff.1 hthere
  have hroot' : stop.files.locate .follow (g.stagingRoot.getD stop.temporary) = .ok root := by
    rw [htemporary]
    exact hmarked.filled.locate hroot hdir
  have hthere' : g.RootThere stop :=
    isDirectory_eq_true_iff.2 ⟨htemporary ▸ hfault, root, hroot', Carries.directory hmarked.filled.carries hdir⟩
  have hwritten : (g.stagingRoot.getD stop.temporary).Written := htemporary ▸ h.written
  have hrooted' := hthere'.rooted hwritten
  have houtlet : Outlet start.files output top := hrooted ▸ h.outlet
  refine ⟨⟨hmarked.filled.sound, hwritten, ?_, h.absolute, h.proper, h.faultless, ?_, fun {place} hplace => ?_⟩,
    hthere'⟩
  · rw [hrooted']
    exact houtlet.of_enclosed hmarked.enclosed fun _ hl => .inl hl
  · rw [hrooted']
    exact hmarked.filled.locate (hrooted ▸ h.leads) houtlet.there
  · rw [hrooted', hroot'] at hplace
    cases hplace
    exact h.apart (by rw [hrooted, hroot])

/-! ## A request that is carried out -/

/-- Whether the staging root of a request is not in its output directory, wherever these are once both have been
made. -/
def RootOutside (g : Getter) (request : Request) (start : Host) : Prop :=
  ∀ ⦃output files top root⦄, Opened request start output files → files.locate .follow output = .ok top →
    (Staging.rooted g.stagingRoot files).locate .follow (g.stagingRoot.getD start.temporary) = .ok root →
    ¬top <+: root

/-- Whether a request meets no link below its output directory, has its staging root outside that, and tools that leave
what their actions and directories tell. -/
structure Renewable (g : Getter) (request : Request) (act : Action → View → View) (s : Session) : Prop where
  /-- The tree is sound. -/
  sound : s.host.files.Sound
  /-- The path of the staging root is written. -/
  written : (g.stagingRoot.getD s.host.temporary).Written
  /-- No link is below the output directory. -/
  unlinked : OutputUnlinked request s.host
  /-- The staging root is not in the output directory. -/
  outside : g.RootOutside request s.host
  /-- What a tool leaves is told by its action and its working directory. -/
  tools : ∀ c ∈ s.dispatchesOf (g.get request), c.Regular act

variable {s t u again : Session} {files : FileSystem} {paths others : List Path}

/-- Once the output directory of a request is opened, the turns of its names can start. -/
theorem Renewable.ready (h : g.Renewable request act s) (hp : request.outputDirectory.Written)
    (hopened : Opened request s.host output files) :
    ∃ top, g.Ready output top { s.host with files } ∧ files.locate .follow output = .ok top ∧
      files.get? top = some .directory ∧ SameLinks s.host.files files ∧
      Detached s.host.files.workingDirectory files.workingDirectory := by
  obtain ⟨place, rfl, hproper, hfault, -⟩ := hopened.exists_place h.sound hp
  obtain ⟨top, htop, houtlet, hmade, -⟩ := hopened.outlet h.sound hp h.unlinked
  have hgrown := Staging.grown_rooted houtlet.sound (Staging.written_of_getD h.written)
  have hrooted := (hgrown.filled houtlet.sound).locate htop houtlet.there
  refine ⟨top, ⟨houtlet.sound, h.written, ?_, rfl, hproper, hfault, hrooted, fun hroot => h.outside hopened htop hroot⟩,
    htop, houtlet.there, hmade.links, hmade.working⟩
  exact houtlet.of_enclosed (hgrown.enclosed houtlet.sound) fun l hl => .inr (.inl hl.1)

/-- Whether the packages for the names of a request were put in their places in the output directory, and the marker
was written. -/
structure Finished (g : Getter) (request : Request) (act : Action → View → View) (output : Path) (top : Location)
    (paths : List Path) (cs : List Constraint) (start stop : Host) : Prop where
  /-- There are names. -/
  nonempty : request.names ≠ []
  /-- The names resolve to these constraints. -/
  resolved : request.names.map Constraint.resolve = cs.map .ok
  /-- The paths are those of the packages, in the order of the names. -/
  paths_eq : paths = cs.map fun c => output.child (importName (c.source request.kind))
  /-- The staging root is there. -/
  rootThere : g.RootThere stop
  /-- The paths of the packages are not too long. -/
  fits : ∀ c ∈ cs, (⟨output.anchor, output.names ++ placeOf (c.source request.kind)⟩ : Path).text.utf8ByteSize ≤
    maxPathSize
  /-- The packages were put in their places, and then the marker was written. -/
  placed : ∃ u, Placed top (g.packagesOf act (g.codeOf request) request.kind cs)
      (Staging.rooted g.stagingRoot start.files) u ∧
    stop.files.view top = (u.view top).write [Harvester.markerName] "" ∧ stop.files.held = u.held

/-- Whether a request for Python that was opened left one host after another, with the paths of what it collected. -/
structure Renewed (g : Getter) (request : Request) (act : Action → View → View) (output : Path) (top : Location)
    (paths : List Path) (start stop : Host) : Prop where
  /-- A turn could start on the host that is left. -/
  ready : g.Ready output top stop
  /-- The path of the output directory leads there. -/
  leads : stop.files.locate .follow output = .ok top
  /-- The output directory is there. -/
  there : stop.files.get? top = some .directory
  /-- The same links stand at the same places. -/
  links : SameLinks start.files stop.files
  /-- The working directory is where it was, or was detached from there. -/
  working : Detached start.files.workingDirectory stop.files.workingDirectory
  /-- There was nothing to do, and nothing changed, or all names came to their packages. -/
  outcome : request.names = [] ∧ paths = [] ∧ Same start.files stop.files ∨
    ∃ cs, g.Finished request act output top paths cs start stop

/-- The code that a request is accepted with is the code that it comes to. -/
theorem Accepted.codeOf_eq {harvester : Harvester} (h : Accepted g request harvester code) :
    g.codeOf request = code := by
  unfold codeOf
  rw [h.emission]

/-- A request for Python that succeeds renews its output directory. -/
theorem run_get_renewed (hg : g.IsStandard) (hpython : request.language = .python)
    (hopened : Opened request s.host output files) (hready : g.Ready output top { s.host with files })
    (hleads : files.locate .follow output = .ok top) (hthere : files.get? top = some .directory)
    (hcs : ∀ c ∈ s.dispatchesOf (g.get request), c.Regular act)
    (hrun : (g.get request).run s = (.ok paths, t)) :
    g.Renewed request act output top paths { s.host with files } t.host := by
  obtain ⟨ds, result, t', hrun', hdispatches, hcourse⟩ := run_get_course hg request s
  rw [Session.dispatchesOf_eq hrun' hdispatches] at hcs
  rw [hrun] at hrun'
  cases hrun'
  have hl : request.language.isPrimary = false := by rw [hpython]; rfl
  cases hcourse with
  | idle hopened' _ hnone hnoted =>
    obtain ⟨rfl, rfl⟩ := hopened'.unique hopened
    obtain ⟨line, hline⟩ := hnoted.files
    have hsame : Same files t.host.files := hline ▸ hready.sound.same_of_writeHeld line
    refine ⟨(hready.noted hnoted).ready, ?_, ?_, hsame.sameLinks, hsame.working ▸ .refl _,
      .inl ⟨hnone, rfl, hsame⟩⟩
    · rw [locate_eq_of_same hsame.shape (startOf_eq hsame.working _), hleads]
    · rw [← shapeAt_eq_directory, hsame.shape _ id, shapeAt_eq_directory, hthere]
  | saved _ _ hsaved =>
    rw [hl] at hsaved
    cases hsaved
  | @finished _ _ _ code _ _ middle _ hopened' haccepted _ hturns hfinish =>
    obtain ⟨rfl, rfl⟩ := hopened'.unique hopened
    obtain ⟨-, rfl⟩ := haccepted.harvester_eq hl
    obtain ⟨cs, hnames, -⟩ := haccepted.exists_constraints
    obtain ⟨hdelivered, hroot⟩ := hturns.delivered hpython hnames hready haccepted.stageable.segmented hcs
    have hroot := hroot haccepted.nonempty
    -- after a turn the staging root is there, so what is ready once that is made is ready as it is
    have hrooted := hroot.rooted hdelivered.ready.written
    have houtlet : Outlet middle.files output top := hrooted ▸ hdelivered.ready.outlet
    obtain ⟨hmarked, htemporary⟩ := run_finalize_ok houtlet (hrooted ▸ hdelivered.ready.leads) hfinish
    obtain ⟨hfinal, hrootThere⟩ := hdelivered.ready.marked hroot hmarked htemporary
    have hgrown := (Staging.grown_rooted hready.sound (Staging.written_of_getD hready.written)).enclosed hready.sound
    have hfirst : SameLinks files middle.files ∧ Detached files.workingDirectory middle.files.workingDirectory := by
      rw [← hrooted]
      exact ⟨hgrown.links.trans hdelivered.links, hgrown.working.trans hdelivered.working⟩
    refine ⟨hfinal, hmarked.filled.locate (hrooted ▸ hdelivered.ready.leads) houtlet.there,
      Carries.directory hmarked.filled.carries houtlet.there, hfirst.1.trans hmarked.enclosed.links,
      hfirst.2.trans hmarked.enclosed.working, .inr ⟨cs, haccepted.nonempty, hnames, hturns.paths_eq hnames,
        hrootThere, ?_, middle.files, ?_, hmarked.view, hmarked.filled.held⟩⟩
    · simpa only [packagesOf, List.forall_mem_map] using hdelivered.fits
    · rw [haccepted.codeOf_eq, ← hrooted]
      exact hdelivered.placed

/-- The constraints of a request that was finished are those of its names. -/
theorem Finished.unique {start stop start' stop' : Host} {output' : Path} {top' : Location} {cs ds : List Constraint}
    (h : g.Finished request act output top paths cs start stop)
    (h' : g.Finished request act output' top' others ds start' stop') : ds = cs :=
  List.map_injective_iff.2 (fun _ _ => Except.ok.inj) (h'.resolved.symm.trans h.resolved)

/-- Each path that was collected holds what the packages for the names tell, whatever was there before. -/
theorem Renewed.subtree?_eq {start stop : Host} (h : g.Renewed request act output top paths start stop)
    {cs : List Constraint} (hfinished : g.Finished request act output top paths cs start stop) {c : Constraint}
    (hc : c ∈ cs) :
    stop.files.subtree? (output.child (importName (c.source request.kind))) =
      (View.empty.landAll (g.packagesOf act (g.codeOf request) request.kind cs)).subtree?
        (placeOf (c.source request.kind)) := by
  obtain ⟨-, hnames, -, hroot, hfits, u, hplaced, hview, -⟩ := hfinished
  have hsource : Segmented (c.source request.kind) := Constraint.segmented_of_mem hnames hc request.kind
  have houtlet : Outlet stop.files output top := hroot.rooted h.ready.written ▸ h.ready.outlet
  have hget : ∀ rest, stop.files.get? (top ++ (placeOf (c.source request.kind) ++ rest)) =
      View.empty.landAll (g.packagesOf act (g.codeOf request) request.kind cs)
        (placeOf (c.source request.kind) ++ rest) := by
    intro rest
    -- the marker is not in the package
    have hway : ¬placeOf (c.source request.kind) ++ rest <+: [Harvester.markerName] := fun hway =>
      hsource.apart_marker.1 ((List.prefix_append _ _).trans hway)
    have hwrite := congrFun hview (placeOf (c.source request.kind) ++ rest)
    unfold View.write at hwrite
    rw [if_neg fun he => hway (by rw [he]), if_neg hway] at hwrite
    exact hwrite.trans (hplaced.arrived (exists_isPrefix_packagesOf hc (List.prefix_append _ _)))
  have hlinks : stop.files.LinkFree top (placeOf (c.source request.kind)) :=
    fun _ hne target => houtlet.unlinked (below_append hne)
  rw [hsource.child_importName, h.ready.sound.subtree?_append h.leads h.there houtlet.proper hsource.proper_placeOf
    hsource.placeOf_ne_nil hlinks (hfits c hc)]
  unfold View.subtree?
  have hroot := hget []
  rw [List.append_nil] at hroot
  rw [hroot]
  simp only [List.append_assoc, hget]

/-- An output directory that is there already is opened as it is. -/
theorem Opened.reopened {start host : Host} {output' : Path} {files' : FileSystem}
    (h : Opened request start output files) (hwritten : output.Written)
    (hfault : PathFault.ofText? output.text = none) (hlinks : SameLinks start.files host.files)
    (hworking : Detached start.files.workingDirectory host.files.workingDirectory)
    (hleads : host.files.locate .follow output = .ok top) (hthere : host.files.get? top = some .directory)
    (h' : Opened request host output' files') : output' = output ∧ files' = host.files := by
  obtain ⟨-, -, -, hresolve, -⟩ := run_resolve_ok_iff.1 h.resolved
  obtain ⟨-, -, hstart, hresolve', -⟩ := run_resolve_ok_iff.1 h'.resolved
  have hsame : host.files.startOf request.outputDirectory = start.files.startOf request.outputDirectory := by
    unfold startOf
    split
    · rfl
    · next hrelative => exact hworking.eq_of_not_gone (hstart.resolve_left hrelative)
  obtain rfl : output' = output := by
    rw [hresolve', hresolve]
    exact resolve_of_sameLinks hlinks hsame
  have hmade := h'.made
  rw [run_makeDirectories_of_directory hwritten (isDirectory_eq_true_iff.2 ⟨hfault, top, hleads, hthere⟩)] at hmade
  cases hmade
  exact ⟨rfl, rfl⟩

/-- A request that succeeds opened its output directory. -/
theorem exists_opened (hg : g.IsStandard) (hrun : (g.get request).run s = (.ok paths, t)) :
    ∃ output files, Opened request s.host output files := by
  obtain ⟨ds, result, t', hrun', -, hcourse⟩ := run_get_course hg request s
  rw [hrun] at hrun'
  cases hrun'
  cases hcourse with
  | idle hopened | saved hopened | finished hopened => exact ⟨_, _, hopened⟩

/-- Whether the turns of names can start on a host is told by its files and by where temporary files go. -/
theorem Ready.of_files {host other : Host} (h : g.Ready output top host) (hfiles : other.files = host.files)
    (htemporary : other.temporary = host.temporary) : g.Ready output top other := by
  obtain ⟨hsound, hwritten, houtlet, habsolute, hproper, hfaultless, hleads, hapart⟩ := h
  rw [← hfiles] at hsound houtlet hleads hapart
  rw [← htemporary] at hwritten hapart
  exact ⟨hsound, hwritten, houtlet, habsolute, hproper, hfaultless, hleads, hapart⟩

/-- A request that is renewed where it was renewed before leaves its output directory as it was. -/
theorem Renewed.untouched {start middle start' stop : Host} (h : g.Renewed request act output top paths start middle)
    (hfiles : start'.files = middle.files) (h' : g.Renewed request act output top others start' stop) :
    others = paths ∧ Untouched (top <+: ·) middle.files stop.files := by
  rcases h.outcome with ⟨hnone, rfl, -⟩ | ⟨cs, hfinished⟩
  · rcases h'.outcome with ⟨-, rfl, hsame⟩ | ⟨ds, hfinished'⟩
    · exact ⟨rfl, hfiles ▸ hsame.untouched⟩
    · exact absurd hnone hfinished'.nonempty
  · rcases h'.outcome with ⟨hnone, -⟩ | ⟨ds, hfinished'⟩
    · exact absurd hnone hfinished.nonempty
    obtain rfl := hfinished.unique hfinished'
    refine ⟨hfinished'.paths_eq.trans hfinished.paths_eq.symm, ?_⟩
    obtain ⟨u, hplaced, hview, -⟩ := hfinished.placed
    obtain ⟨v, hplaced', hview', hheld⟩ := hfinished'.placed
    rw [hfiles, hfinished.rootThere.rooted h.ready.written] at hplaced'
    refine hplaced.untouched_again hview hplaced' hview' hheld ?_
    simp only [packagesOf, List.forall_mem_map]
    exact fun c hc => (Constraint.segmented_of_mem hfinished.resolved hc request.kind).apart_marker

/-- A request that starts without links below its output directory and succeeds renews that. -/
theorem Renewable.renewed (h : g.Renewable request act s) (hg : g.IsStandard) (hpython : request.language = .python)
    (hp : request.outputDirectory.Written) (hrun : (g.get request).run s = (.ok paths, t)) :
    ∃ output top files, Opened request s.host output files ∧ SameLinks s.host.files files ∧
      Detached s.host.files.workingDirectory files.workingDirectory ∧
      g.Renewed request act output top paths { s.host with files } t.host := by
  obtain ⟨output, files, hopened⟩ := exists_opened hg hrun
  obtain ⟨top, hready, hleads, hthere, hlinks, hworking⟩ := h.ready hp hopened
  exact ⟨output, top, files, hopened, hlinks, hworking,
    run_get_renewed hg hpython hopened hready hleads hthere h.tools hrun⟩

/-- What a request for Python leaves at the paths that it collects does not depend on what was there before, nor on
anything else but the request and its tools, and when it is carried out again, nothing in its output directory is
touched but the log file, which may be added to wherever it lies. This is so when no link is below the output directory, the staging root is
outside that, and the tools keep to their working directories, make no link, and leave there what their actions tell
and what was there. -/
theorem run_get_renews (hg : g.IsStandard) (hpython : request.language = .python)
    (hp : request.outputDirectory.Written) (h : g.Renewable request act s)
    (hrun : (g.get request).run s = (.ok paths, t)) :
    (∀ {other w : Session} {others : List Path}, g.Renewable request act other →
      (g.get request).run other = (.ok others, w) →
        paths.map t.host.files.subtree? = others.map w.host.files.subtree?) ∧
    ∀ {again u : Session} {others : List Path}, again.host.files = t.host.files →
      again.host.temporary = t.host.temporary → (∀ c ∈ again.dispatchesOf (g.get request), c.Regular act) →
      (g.get request).run again = (.ok others, u) →
        others = paths ∧ ∃ output top, (Host.resolve request.outputDirectory).run s.host = (.ok output, s.host) ∧
          (Host.resolve request.outputDirectory).run again.host = (.ok output, again.host) ∧
          t.host.files.locate .follow output = .ok top ∧ u.host.files.locate .follow output = .ok top ∧
          Untouched (top <+: ·) t.host.files u.host.files := by
  obtain ⟨output, top, files, hopened, hlinks, hworking, hrenewed⟩ := h.renewed hg hpython hp hrun
  refine ⟨fun {other w others} hother hrun' => ?_, fun {again u others} hfiles htemporary hcs hrun' => ?_⟩
  · obtain ⟨output', top', files', -, -, -, hrenewed'⟩ := hother.renewed hg hpython hp hrun'
    rcases hrenewed.outcome with ⟨hnone, rfl, -⟩ | ⟨cs, hfinished⟩
    · rcases hrenewed'.outcome with ⟨-, rfl, -⟩ | ⟨ds, hfinished'⟩
      · rfl
      · exact absurd hnone hfinished'.nonempty
    · rcases hrenewed'.outcome with ⟨hnone, -⟩ | ⟨ds, hfinished'⟩
      · exact absurd hnone hfinished.nonempty
      obtain rfl := hfinished.unique hfinished'
      -- what either run left at a path is told by the packages, whatever its host was like before
      rw [hfinished.paths_eq, hfinished'.paths_eq, List.map_map, List.map_map]
      refine List.map_congr_left fun c hc => ?_
      rw [Function.comp_apply, Function.comp_apply, hrenewed.subtree?_eq hfinished hc,
        hrenewed'.subtree?_eq hfinished' hc]
  -- the second run opens the directory that the first one left, and is ready as that was in the end
  · obtain ⟨output', files', hopened'⟩ := exists_opened hg hrun'
    have houtput : output.Written := hrenewed.ready.outlet.written
    obtain ⟨rfl, rfl⟩ := hopened.reopened houtput hrenewed.ready.faultless
      (hfiles ▸ hlinks.trans hrenewed.links) (hfiles ▸ hworking.trans hrenewed.working) (hfiles ▸ hrenewed.leads)
      (hfiles ▸ hrenewed.there) hopened'
    have hready : g.Ready output' top { again.host with files := again.host.files } :=
      hrenewed.ready.of_files hfiles htemporary
    have hagain := run_get_renewed hg hpython hopened' hready (hfiles ▸ hrenewed.leads) (hfiles ▸ hrenewed.there) hcs
      hrun'
    obtain ⟨rfl, huntouched⟩ := hrenewed.untouched hfiles hagain
    exact ⟨rfl, output', top, hopened.resolved, hopened'.resolved, hrenewed.leads, hagain.leads, huntouched⟩

/-! ## A host with an earlier package -/

/-- What stand-in tools write where they are asked to act: the packager a package for its source, and the compiler
nothing. -/
def standInFiles (action : Action) : List (String × String) :=
  let source := action.forTarget.getD ""
  if action.adapter = CommandKind.packager.command then
    [("dist/python/src/" ++ importName source ++ "/__init__.py", "# " ++ source)]
  else []

/-- What a stand-in tool makes of a directory. -/
def standInAct (action : Action) (view : View) : View :=
  view.writeAll (standInFiles action)

/-- Whether a tool did what a stand-in does. -/
def isStandIn (c : Dispatch) : Bool :=
  c.isContained && c.after.files.isUnlinked &&
    match c.before.files.locate .follow (.ofString c.context.workingDirectory) with
    | .error _ => true
    | .ok work => isWritten work (standInFiles c.context.action) c.before.files c.after.files

/-- A tool that looks like a stand-in leaves what its action and its directory tell. -/
theorem regular_of_isStandIn {c : Dispatch} (h : isStandIn c = true) : c.Regular standInAct := by
  rw [isStandIn, Bool.and_eq_true, Bool.and_eq_true] at h
  obtain ⟨⟨hcontained, hunlinked⟩, hwritten⟩ := h
  refine ⟨Dispatch.contained_of_isContained hcontained, fun location target hlink => ?_, fun work hwork => ?_⟩
  · exact absurd hlink (get?_ne_link_of_isUnlinked hunlinked location target)
  · rw [hwork] at hwritten
    exact view_of_isWritten hwritten

/-- The session with tools, on a host where an earlier package is in the output directory. -/
def restocked : Session :=
  { stocked with
    host := { stocked.host with
      files := { stocked.host.files with
        entries := stocked.host.files.entries ++
          [(["out"], .directory), (["out", "a"], .directory),
            (["out", "a", "old.py"], .file (.text "") false)] } } }

/-- The text of an index of versions, which needs no sort where the names come in order. -/
def orderedIndex (versions : List (String × String)) : String :=
  if versions.Pairwise fun a b => a.1 ≤ b.1 then
    (Json.obj (versions.map fun (name, version) => (name, .str version))).render ++ "\n"
  else VersionIndex.text versions

/-- The emission for names, with a sort only where it is needed. -/
def emitOrdered (layout : Layout) (names : List String) (kind : TargetKind) : Emission Unit := do
  let versions ← names.foldlM (emitName layout kind) []
  Emission.step fun e => .ok (e.addFile VersionIndex.fileName (orderedIndex versions))

/-- A sort that is not needed changes nothing. -/
theorem emitBindings_eq_emitOrdered : emitBindings = emitOrdered := by
  have htext : VersionIndex.text = orderedIndex := by
    funext versions
    unfold orderedIndex
    split
    · next hordered =>
      unfold VersionIndex.text
      rw [List.mergeSort_of_pairwise (hordered.imp decide_eq_true)]
    · rfl
  unfold emitBindings emitOrdered
  rw [htext]

/-- The request for two providers succeeds on the bare host, on that with an earlier package, and once more on the first,
and its tools are stand-ins. -/
theorem outcome_restocked :
    [stocked, restocked, ((({} : Getter).get twoNames).run stocked).2].all (fun s =>
      ((({} : Getter).get twoNames).run s).1.toOption.isSome &&
        (s.dispatchesOf (({} : Getter).get twoNames)).all isStandIn) = true := by
  -- the sort of the index cannot be evaluated, but the names come in order
  have hordered : ({} : Getter) = { generate := emitOrdered } := by rw [← emitBindings_eq_emitOrdered]
  rw [hordered]
  decide +kernel

/-- A host on which the output directory is made at the root, and temporary files go elsewhere, has its staging root
outside the output directory. -/
theorem rootOutside_of_made {start : Host} {made : FileSystem}
    (hresolve : start.files.resolve twoNames.outputDirectory = .fromRoot ["out"])
    (hmade : (makeDirectories (.fromRoot ["out"])).run start.files = (.ok (), made))
    (hout : made.locate .follow (.fromRoot ["out"]) = .ok ["out"])
    (hroot : made.locate .follow start.temporary = .ok ["tmp"]) : ({} : Getter).RootOutside twoNames start := by
  intro output files top root hopened htop hleads
  obtain ⟨-, -, -, rfl, -⟩ := run_resolve_ok_iff.1 hopened.resolved
  have hfiles := hopened.made
  rw [hresolve] at hfiles htop
  rw [hmade] at hfiles
  cases hfiles
  rw [hout] at htop
  cases htop
  have hroot' : made.locate .follow start.temporary = .ok root := hleads
  rw [hroot] at hroot'
  cases hroot'
  decide

/-- The request for two providers leaves the same on the bare host and where an earlier package was, and leaves it as it
was when it is carried out again. -/
theorem run_get_renews_stocked :
    ∃ paths t others w again u output top, (({} : Getter).get twoNames).run stocked = (.ok paths, t) ∧
      (({} : Getter).get twoNames).run restocked = (.ok others, w) ∧
      (({} : Getter).get twoNames).run t = (.ok again, u) ∧
      paths.map t.host.files.subtree? = others.map w.host.files.subtree? ∧ again = paths ∧
      t.host.files.locate .follow output = .ok top ∧ u.host.files.locate .follow output = .ok top ∧
      Untouched (top <+: ·) t.host.files u.host.files := by
  have hall : ∀ s ∈ [stocked, restocked, ((({} : Getter).get twoNames).run stocked).2],
      (∃ paths, ((({} : Getter).get twoNames).run s).1 = .ok paths) ∧
        ∀ c ∈ s.dispatchesOf (({} : Getter).get twoNames), c.Regular standInAct := by
    intro s hs
    have hboth := List.all_eq_true.1 outcome_restocked s hs
    rw [Bool.and_eq_true] at hboth
    refine ⟨?_, fun c hc => regular_of_isStandIn (List.all_eq_true.1 hboth.2 c hc)⟩
    cases hrun : ((({} : Getter).get twoNames).run s).1 with
    | error failure =>
      rw [hrun] at hboth
      cases hboth.1
    | ok paths => exact ⟨paths, rfl⟩
  obtain ⟨⟨paths, hrun⟩, htools⟩ := hall stocked (by simp)
  obtain ⟨⟨others, hrun'⟩, htools'⟩ := hall restocked (by simp)
  obtain ⟨⟨again, hagain⟩, htools''⟩ := hall ((({} : Getter).get twoNames).run stocked).2 (by simp)
  have hlinks : ∀ {s : Session}, s.host.files.isUnlinked = true → OutputUnlinked twoNames s.host :=
    fun h _ _ _ _ _ location target _ => get?_ne_link_of_isUnlinked h location target
  have hstocked : ({} : Getter).Renewable twoNames standInAct stocked :=
    { sound := RunOptions.sound_bareHost
      written := by decide
      unlinked := hlinks (by decide)
      outside := rootOutside_of_made (by decide +kernel)
        (opened_stocked (rfl : twoNames.outputDirectory = _)).made (by decide +kernel) (by decide +kernel)
      tools := htools }
  have hrestocked : ({} : Getter).Renewable twoNames standInAct restocked :=
    { sound := sound_of_isSound (by decide +kernel)
      written := by decide
      unlinked := hlinks (by decide)
      outside := rootOutside_of_made (by decide +kernel) (Prod.ext (by decide +kernel) rfl) (by decide +kernel)
        (by decide +kernel)
      tools := htools' }
  obtain ⟨hsame, hrenewed⟩ := run_get_renews isStandard_default rfl (by decide : twoNames.outputDirectory.Written)
    hstocked (Prod.ext hrun rfl)
  obtain ⟨rfl, output, top, -, -, ht, hu, huntouched⟩ := hrenewed rfl rfl htools'' (Prod.ext hagain rfl)
  exact ⟨_, _, others, _, _, _, output, top, Prod.ext hrun rfl, Prod.ext hrun' rfl, Prod.ext hagain rfl,
    hsame hrestocked (Prod.ext hrun' rfl), rfl, ht, hu, huntouched⟩

end Getter

end ProviderBindings
