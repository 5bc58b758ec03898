import ProviderBindings.Proofs.Enclosures

/-!
# Where requests reach

What a request changes at most, whatever its names, its tools and the paths of the output directory and of the
staging root are. `Getter.Reach` tells the places: those below the output directory, those at or below a staging
directory that the request makes (`Getter.Stages`), and those at which a directory is made on the way to the output
directory or to the staging root. Outside the output directory nothing is reached that stood there before.

The turns of names stay in their wake (`Getter.Wake`): what one turn changes is around its bench, and the tree it
leaves is one in which the next can start (`Turn.wake`, `run_mapM_wake`). So every tool of a run finds and
leaves a tree that came about within reach, and so does the run as a whole (`run_get_contained`), as long as no link
is below the output directory and the tools are contained and make none. The places themselves are plain: no name
yields a path that leads anywhere else (`Plain`).
-/

namespace ProviderBindings

open FileSystem

/-! ## Plain paths -/

/-- Whether a path text is relative and not empty, and has no empty component and no dot or double dot for one. -/
structure Plain (s : String) : Prop where
  /-- The path does not start at the root. -/
  relative : (Path.ofString s).isAbsolute = false
  /-- The text is not empty. -/
  nonempty : s ≠ ""
  /-- No piece between slashes is empty, a dot or double dots. -/
  components : ∀ name ∈ Text.split '/' s, name ≠ "" ∧ name ≠ "." ∧ name ≠ ".."

/-- A text made of segments is a plain path. -/
theorem Segmented.plain {s : String} (h : Segmented s) : Plain s := by
  have hcomponents : ∀ name ∈ Text.split '/' s, name ≠ "" ∧ name ≠ "." ∧ name ≠ ".." :=
    fun name hname => (h name hname).ne
  refine ⟨?_, ?_, hcomponents⟩
  · have hchild := h.child ⟨.relative, []⟩
    unfold Path.child Path.join at hchild
    split at hchild
    · next habsolute =>
      rw [hchild] at habsolute
      exact absurd habsolute (by simp [Path.isAbsolute])
    · next hrelative => exact Bool.not_eq_true _ ▸ hrelative
  · rintro rfl
    exact (hcomponents "" (by decide)).1 rfl

namespace Getter

variable {g : Getter} {request : Request} {s : Session} {output : Path} {files t : FileSystem} {top : Location}

/-! ## Reach -/

/-- Whether a request makes a staging directory at a place: in the turn of a name, once the names before it have had
theirs, the path of the directory that is acquired leads there. -/
inductive Stages (g : Getter) (request : Request) (s : Session) (place : Location) : Prop
  | acquired {output files harvester code first name rest paths u noted directory made}
      (hopened : Opened request s.host output files) (haccepted : Accepted g request harvester code)
      (hl : request.language.isPrimary = false) (hnames : request.names = first ++ name :: rest)
      (hfirst : (first.mapM (g.buildOne code request harvester output)).run
        { s with host := { s.host with files } } = (.ok paths, u))
      (hnoted : Noted u.host noted)
      (hacquire : (Staging.acquire "get" g.stagingRoot).run noted = (.ok directory, made))
      (hplace : made.files.locate .follow directory = .ok place) : Stages g request s place

/-- Whether a request may change what stands at a location, when its output directory, made with the given files, is
at `top`. -/
inductive Reach (g : Getter) (request : Request) (s : Session) (output : Path) (files : FileSystem)
    (top : Location) : Location → Prop
  /-- The location is below the output directory. -/
  | below {location} (h : Below top location) : Reach g request s output files top location
  /-- Nothing stood at the location, which is at or below a staging directory. -/
  | staged {place location} (hplace : g.Stages request s place) (hl : place <+: location)
      (hnew : s.host.files.get? location = none) : Reach g request s output files top location
  /-- A directory was made there for the output directory. -/
  | output {location} (h : MadeFor output s.host.files files location) :
      Reach g request s output files top location
  /-- A directory was made there for the staging root, when the language takes one. -/
  | root {path location} (hl : request.language.isPrimary = false) (hpath : g.stagingRoot = some path)
      (h : MadeFor path files (Staging.rooted g.stagingRoot files) location) :
      Reach g request s output files top location

/-- Whether a tree came from that of a session by changes within the reach of a request, with the output directory
standing all the while: a working directory that is not below it was not lost. -/
structure Bounded (g : Getter) (request : Request) (s : Session) (output : Path) (files : FileSystem)
    (top : Location) (t : FileSystem) : Prop where
  /-- The output directory stands. -/
  there : t.get? top = some .directory
  /-- Nothing out of reach was touched. The log file may have been added to. -/
  untouched : Untouched (¬g.Reach request s output files top ·) s.host.files t
  /-- The same links stand at the same places. -/
  links : SameLinks s.host.files t
  /-- A working directory that is not below the output directory is where it was. -/
  standing : ¬Below top s.host.files.workingDirectory →
    t.workingDirectory = s.host.files.workingDirectory

/-- Whether no link is below the output directory of a request, wherever that is once it has been made. -/
def OutputUnlinked (request : Request) (start : Host) : Prop :=
  ∀ ⦃output files top⦄, Opened request start output files → files.locate .follow output = .ok top →
    ∀ location target, Below top location → start.files.get? location ≠ some (.link target)

/-- The output directory of a request is opened in one way. -/
theorem Opened.unique {output' : Path} {files' : FileSystem} {start : Host}
    (h : Opened request start output files) (h' : Opened request start output' files') :
    output' = output ∧ files' = files := by
  have hresolved := h'.resolved
  rw [h.resolved] at hresolved
  cases hresolved
  have hmade := h'.made
  rw [h.made] at hmade
  cases hmade
  exact ⟨rfl, rfl⟩

/-- What is in reach is below the output directory, or nothing stood there. -/
theorem Reach.below_or_new {location : Location} (h : g.Reach request s output files top location)
    (hgrown : Grown s.host.files files) : Below top location ∨ s.host.files.get? location = none := by
  cases h with
  | below h => exact .inl h
  | staged _ _ hnew => exact .inr hnew
  | output h => exact .inr h.new
  | root _ _ h =>
    right
    cases hthere : s.host.files.get? location with
    | none => rfl
    | some entry =>
      have hnew := h.new
      rw [hgrown.kept hthere] at hnew
      cases hnew

/-- An output directory that was opened is an outlet, where no link was below it. -/
theorem Opened.outlet (h : Opened request s.host output files) (hs : s.host.files.Sound)
    (hp : request.outputDirectory.Written)
    (hlinks : OutputUnlinked request s.host) :
    ∃ top, files.locate .follow output = .ok top ∧ Outlet files output top ∧
      Enclosed (MadeFor output s.host.files files) s.host.files files ∧ Grown s.host.files files := by
  obtain ⟨place, rfl, hproper, hfault, hgrown, -⟩ := h.exists_place hs hp
  have hwritten : (Path.fromRoot place).Written := hproper.written
  obtain ⟨-, hdirectory⟩ := run_makeDirectories_ok hs hwritten h.made
  obtain ⟨-, top, htop, hthere⟩ := isDirectory_eq_true_iff.1 hdirectory
  have hsound : files.Sound := hgrown.sound hs
  have hmade := enclosed_makeDirectories hs hwritten h.made
  obtain ⟨-, links, -, hlead⟩ := locate_eq_ok_iff.1 htop
  refine ⟨top, htop, ⟨hsound, hwritten, points_of_locate htop, hthere, ?_, ?_, ?_⟩, hmade, hgrown⟩
  · exact hlead.proper (by simp [startOf, Path.isAbsolute, Path.fromRoot, Proper])
      fun name hname => (hwritten name hname).2.2
  · intro location target hl hlink
    exact hlinks h htop location target hl ((hmade.links _ _).1 hlink)
  · intro names hn
    obtain ⟨middle, hmiddle, hd⟩ := hsound.points_of_isPrefix htop hthere hn
    exact ⟨middle, hmiddle, .inl hd⟩

/-- A tree that came within reach from the one with the output directory is bounded. -/
theorem bounded_of_enclosed (hs : s.host.files.Sound)
    (hmade : Enclosed (MadeFor output s.host.files files) s.host.files files)
    (hgrown : Grown s.host.files files)
    (ht : Enclosed (g.Reach request s output files top) files t) (hthere : t.get? top = some .directory) :
    g.Bounded request s output files top t := by
  have hfirst := hmade.mono fun l hl => (Reach.output hl : g.Reach request s output files top l)
  have hall := hfirst.trans ht
  refine ⟨hthere, hall.untouched, hall.links, fun hout => hall.standing fun hin => ?_⟩
  rcases hin.below_or_new hgrown with hbelow | hnew
  · exact hout hbelow
  · rw [hs.working (List.prefix_refl _)] at hnew
    cases hnew

/-! ## The wake of turns -/

/-- Whether the turns of names may change what stands at a location: it is below the output directory, or it is at or
below a staging directory and nothing stood there once the staging root had been made. -/
def Wake (g : Getter) (request : Request) (s : Session) (files : FileSystem) (top location : Location) : Prop :=
  Below top location ∨ (Staging.rooted g.stagingRoot files).get? location = none ∧
    ∃ place, g.Stages request s place ∧ place <+: location

/-- Whether a tree came from that with the staging root by changes in the wake of turns. -/
def InWake (g : Getter) (request : Request) (s : Session) (files : FileSystem) (top : Location) (t : FileSystem) :
    Prop :=
  Enclosed (g.Wake request s files top) (Staging.rooted g.stagingRoot files) t

/-- What changes around the bench of a turn is in the wake. -/
theorem InWake.of_around {B : Bench} (hroot : g.InWake request s files B.top B.base)
    (hstages : g.Stages request s B.place) (ht : B.around.Encloses t) : g.InWake request s files B.top t := by
  -- what stood at first and is not below the output directory is on the bench, and so not around the new directory
  have hout : ∀ l, ¬g.Wake request s files B.top l ∧ ¬isNameless l → ¬B.around.zone l := by
    rintro l ⟨hl, hname⟩ hin
    rcases B.around_zone l hin with hbelow | hnone | hname'
    · exact hl (.inl hbelow)
    · rw [hroot.untouched.get?_eq_none_iff hl] at hnone
      rcases hin with hbelow | hplace
      · exact hl (.inl hbelow)
      · exact hl (.inr ⟨hnone, B.place, hstages, hplace⟩)
    · exact hname hname'
  refine ⟨ht.sound, ?_, hroot.links.trans ht.links, hroot.working.trans ht.working, fun hstanding => ?_⟩
  · exact Untouched.of_named ((hroot.untouched.mono fun l hl => hl.1).trans (ht.untouched.mono hout))
  · have hbase : B.base.workingDirectory = (Staging.rooted g.stagingRoot files).workingDirectory :=
      hroot.standing hstanding
    rw [ht.standing ?_, hbase]
    rintro (hbelow | hplace)
    · exact hstanding (.inl (hbase ▸ hbelow))
    · exact B.around.encloses_base.not_isPrefix_working B.vacant hplace

/-- Whether the names of a request come to their turns, with the output directory at `top` once the staging root has
been made. -/
structure Underway (g : Getter) (request : Request) (s : Session) (output : Path) (files : FileSystem)
    (code : Emitter) (top : Location) : Prop where
  /-- The output directory was resolved and made. -/
  opened : Opened request s.host output files
  /-- The names were accepted, and this is their code. -/
  accepted : Accepted g request .package code
  /-- The language is one that code is compiled for. -/
  secondary : request.language.isPrimary = false
  /-- The tree with the output directory is sound. -/
  sound : files.Sound
  /-- Once the staging root has been made, the path of the output directory points there. -/
  outlet : Outlet (Staging.rooted g.stagingRoot files) output top
  /-- The path of the staging root is written. -/
  written : (g.stagingRoot.getD s.host.temporary).Written

/-- Whether a host is one between turns: making the staging root leaves a tree that is in their wake. -/
structure Between (g : Getter) (request : Request) (s : Session) (files : FileSystem) (top : Location)
    (host : Host) : Prop where
  /-- Temporary files go where they went. -/
  temporary : host.temporary = s.host.temporary
  /-- The tree is sound. -/
  sound : host.files.Sound
  /-- Once the staging root has been made, it is in the wake of the turns. -/
  rooted : g.InWake request s files top (Staging.rooted g.stagingRoot host.files)

variable {code : Emitter} {first rest : List String} {name : String} {paths : List Path} {u : Session}

/-- A turn leaves a tree in the wake, and if it succeeds the next can start. Its tools find and leave trees in the
wake. -/
theorem Turn.wake {source : String} {noted stop : Host} {ds : List Dispatch} {result : Except Failure Path}
    (hturn : Turn g code request.language .package output name source noted ds result stop)
    (h : Underway g request s output files code top) (hnames : request.names = first ++ name :: rest)
    (hfirst : (first.mapM (g.buildOne code request .package output)).run
      { s with host := { s.host with files } } = (.ok paths, u))
    (hu : g.Between request s files top u.host) (hnoted : Noted u.host noted) (hsource : Segmented source)
    (hcs : ∀ c ∈ ds, c.Contained ∧ c.AddsNoLink) :
    g.InWake request s files top stop.files ∧
      (∀ path, result = .ok path → g.Between request s files top stop) ∧
      ∀ c ∈ ds, g.InWake request s files top c.before.files ∧ g.InWake request s files top c.after.files := by
  obtain ⟨line, hline⟩ := hnoted.files
  have htemporary : noted.temporary = s.host.temporary := hnoted.temporary.trans hu.temporary
  have hwritten : (g.stagingRoot.getD noted.temporary).Written := htemporary ▸ h.written
  have hsame : Same u.host.files noted.files := hline ▸ hu.sound.same_of_writeHeld line
  have hsound : noted.files.Sound := hline ▸ hu.sound.writeHeld line
  -- the trees before and after the notice differ in the log file alone, also once the staging root is made
  have hroot : g.InWake request s files top (Staging.rooted g.stagingRoot noted.files) := by
    have hparent := Staging.written_of_getD hwritten
    refine hu.rooted.trans (Same.enclosed (Staging.rooted_same hparent hsame) ?_ _)
    exact (Staging.grown_rooted hsound hparent).sound hsound
  have houtlet : Outlet (Staging.rooted g.stagingRoot noted.files) output top :=
    h.outlet.of_enclosed hroot fun l hl => hl.imp_right fun hnew => .inl hnew.1
  rcases hturn.around hsource h.accepted.stageable.segmented hsound hwritten houtlet hcs with
    ⟨rfl, ⟨failure, rfl⟩, rfl⟩ |
      ⟨B, made, hbase, rfl, hacquire, hmade, hleads, hthere, hstop, hkept, hds⟩
  · exact ⟨hroot, (fun path hok => by cases hok), by simp⟩
  · have hstages : g.Stages request s B.place :=
      .acquired h.opened h.accepted h.secondary hnames hfirst hnoted hacquire (hmade ▸ B.locate_made.1)
    have hwake : ∀ {t}, B.around.Encloses t → g.InWake request s files B.top t :=
      fun ht => InWake.of_around (hbase ▸ hroot) hstages ht
    refine ⟨hwake hstop, fun path _ => ⟨hkept.trans htemporary, hstop.sound, ?_⟩,
      fun c hc => ⟨hwake (hds c hc).1, hwake (hds c hc).2⟩⟩
    have hagain := Bench.enclosed_rooted hstop hwritten hleads hthere
    exact (hwake hstop).trans (hagain.mono fun l hl => .inl hl)

/-- The turns of names leave a tree in the wake, and so do their tools. -/
theorem run_mapM_wake (h : Underway g request s output files code top)
    (hnames : request.names = first ++ rest)
    (hfirst : (first.mapM (g.buildOne code request .package output)).run
      { s with host := { s.host with files } } = (.ok paths, u))
    (hu : g.Between request s files top u.host)
    (hcs : ∀ c ∈ u.dispatchesOf (rest.mapM (g.buildOne code request .package output)),
      c.Contained ∧ c.AddsNoLink) :
    ∃ ds result t, (rest.mapM (g.buildOne code request .package output)).run u = (result, t) ∧
      t.dispatches = u.dispatches ++ ds ∧ (rest ≠ [] → g.InWake request s files top t.host.files) ∧
      ∀ c ∈ ds, g.InWake request s files top c.before.files ∧ g.InWake request s files top c.after.files := by
  -- on the names that are left, each of which starts where the one before it ended
  induction rest generalizing first paths u with
  | nil => exact ⟨[], _, u, rfl, (List.append_nil _).symm, fun hne => absurd rfl hne, by simp⟩
  | cons name rest ih =>
    obtain ⟨cs, hcs', -⟩ := h.accepted.exists_constraints
    rw [hnames, List.map_append, List.map_cons] at hcs'
    obtain ⟨-, others, -, -, hothers⟩ := List.map_eq_append_iff.1 hcs'.symm
    obtain ⟨c, cs, -, hc, hrest⟩ := List.map_eq_cons_iff.1 hothers
    have hclosed : code.current = none := h.accepted.stageable.closed
    have hsource : Segmented (c.source request.kind) := Constraint.segmented_of_resolve hc.symm request.kind
    obtain ⟨noted, ds, result, middle, hnoted, hone, hmiddle, hturn⟩ :=
      run_buildOne_turn g request .package output hclosed hc.symm u
    cases result with
    | error failure =>
      have hrun : ((name :: rest).mapM (g.buildOne code request .package output)).run u =
          (.error failure, middle) := by
        rw [List.mapM_cons, run_bind, hone]
      rw [Session.dispatchesOf_eq hrun hmiddle] at hcs
      obtain ⟨hend, -, hds⟩ := hturn.wake h hnames hfirst hu hnoted hsource hcs
      exact ⟨ds, _, middle, hrun, hmiddle, fun _ => hend, hds⟩
    | ok path =>
      obtain ⟨es, result, t, hothers, ht, -⟩ :=
        run_mapM_buildOne_turns g request .package output hclosed hrest.symm middle
      have hall : t.dispatches = u.dispatches ++ (ds ++ es) := by
        rw [ht, hmiddle, List.append_assoc]
      have hrun : ((name :: rest).mapM (g.buildOne code request .package output)).run u =
          (result.map (path :: ·), t) := by
        rw [List.mapM_cons, run_bind, hone]
        dsimp only
        rw [run_bind, hothers]
        cases result <;> rfl
      rw [Session.dispatchesOf_eq hrun hall] at hcs
      obtain ⟨hend, hbetween, hds⟩ := hturn.wake h hnames hfirst hu hnoted hsource
        fun c hc => hcs c (List.mem_append_left _ hc)
      obtain ⟨es', result', t', hothers', ht', hstop, hes⟩ :=
        ih (by rw [hnames, List.append_assoc]; rfl) (run_mapM_concat hfirst hone) (hbetween path rfl)
          (by rw [Session.dispatchesOf_eq hothers ht]; exact fun c hc => hcs c (List.mem_append_right _ hc))
      rw [hothers] at hothers'
      cases hothers'
      obtain rfl : es = es' := List.append_cancel_left (ht.symm.trans ht')
      refine ⟨ds ++ es, _, t, hrun, hall, fun _ => ?_, fun c hc => ?_⟩
      · by_cases hnil : rest = []
        · subst hnil
          cases hothers
          exact hend
        · exact hstop hnil
      · exact (List.mem_append.1 hc).elim (hds c) (hes c)

/-! ## Whole runs -/

/-- What is in the wake of turns is in reach, and so is the staging root. -/
theorem InWake.bounded (ht : g.InWake request s files top t) (hs : s.host.files.Sound)
    (hmade : Enclosed (MadeFor output s.host.files files) s.host.files files) (hgrown : Grown s.host.files files)
    (houtlet : Outlet files output top) (hl : request.language.isPrimary = false)
    (hroot : (g.stagingRoot.getD s.host.temporary).Written) : g.Bounded request s output files top t := by
  have hparent := Staging.written_of_getD hroot
  have hrooted : Grown files (Staging.rooted g.stagingRoot files) := Staging.grown_rooted houtlet.sound hparent
  have hfirst : Enclosed (g.Reach request s output files top) files (Staging.rooted g.stagingRoot files) := by
    cases hpath : g.stagingRoot with
    | none => exact .refl houtlet.sound _
    | some path =>
      refine (enclosed_makeDirectories houtlet.sound (hparent path hpath) rfl).mono fun l hl' => ?_
      exact .root hl hpath (hpath ▸ hl')
  have hlast := ht.mono fun l hl' => show g.Reach request s output files top l from by
    rcases hl' with hbelow | ⟨hnew, place, hplace, hin⟩
    · exact .below hbelow
    · refine .staged hplace hin ?_
      cases hthere : s.host.files.get? l with
      | none => rfl
      | some entry =>
        rw [hrooted.kept (hgrown.kept hthere)] at hnew
        cases hnew
  refine bounded_of_enclosed hs hmade hgrown (hfirst.trans hlast) ?_
  refine (Outlet.directory_or_below ht (fun l hl' => hl'.imp_right fun hnew => .inl hnew.1) ?_).resolve_right
    fun hbelow => hbelow.2 rfl
  exact hrooted.kept houtlet.there

/-- The names of a request that come to their turns leave a tree in the wake, also when the output directory has been
finished. -/
theorem run_get_wake (h : Underway g request s output files code top)
    (hcs : ∀ c ∈ s.dispatchesOf (g.get request), c.Contained ∧ c.AddsNoLink) :
    ∃ ds result t, (g.get request).run s = (result, t) ∧ t.dispatches = s.dispatches ++ ds ∧
      g.InWake request s files top t.host.files ∧
      ∀ c ∈ ds, g.InWake request s files top c.before.files ∧ g.InWake request s files top c.after.files := by
  have hget := run_get_of_accepted h.opened h.accepted
  generalize hstart : ({ s with host := { s.host with files } } : Session) = start at hget
  obtain ⟨cs, hresolve, -⟩ := h.accepted.exists_constraints
  obtain ⟨ds, result, u, hmap, hu, -⟩ := run_mapM_buildOne_turns g request .package output
    h.accepted.stageable.closed hresolve start
  -- the names have their turns, and the output directory is finished when all of them succeed
  have hend : ∃ result t, (g.get request).run s = (result, t) ∧ t.dispatches = u.dispatches ∧
      (t.host = u.host ∨ ∃ outcome, (Harvester.package.finalize output).run u.host = (outcome, t.host)) := by
    rcases hproduce : (g.produce request .package code output).run start with ⟨result, t⟩
    rw [hproduce] at hget
    cases builds_of_run h.secondary hproduce with
    | stopped hall =>
      cases hmap.symm.trans hall
      exact ⟨_, u, hget, rfl, .inl rfl⟩
    | unfinished hall hfinal | finished hall hfinal =>
      cases hmap.symm.trans hall
      exact ⟨_, _, hget, rfl, .inr ⟨_, hfinal⟩⟩
  obtain ⟨outcome, t, hrun, ht, hfinish⟩ := hend
  have hall : t.dispatches = s.dispatches ++ ds := by
    rw [ht, hu, ← hstart]
  rw [Session.dispatchesOf_eq hrun hall, ← Session.dispatchesOf_eq hmap hu] at hcs
  have hbetween : g.Between request s files top start.host := by
    rw [← hstart]
    exact ⟨rfl, h.sound, .refl h.outlet.sound _⟩
  have hnames : request.names = [] ++ request.names := rfl
  obtain ⟨es, result', u', hmap', hu', hwake, hes⟩ :=
    run_mapM_wake h hnames (by rw [hstart]; rfl) hbetween hcs
  rw [hmap] at hmap'
  cases hmap'
  obtain rfl : ds = es := List.append_cancel_left (hu.symm.trans hu')
  refine ⟨ds, outcome, t, hrun, hall, ?_, hes⟩
  have hturns : g.InWake request s files top u.host.files := hwake h.accepted.nonempty
  rcases hfinish with hsame | ⟨final, hfinal⟩
  · rwa [hsame]
  · have houtlet : Outlet u.host.files output top :=
      h.outlet.of_enclosed hturns fun l hl => hl.imp_right fun hnew => .inl hnew.1
    exact hturns.trans ((houtlet.encloses_finalize houtlet.below.encloses_base hfinal).mono fun l hl => .inl hl)

/-- What a run of a request keeps: it changes nothing but what is in reach, before and after each of its tools and as a
whole, and no more than parents of the output directory are made when that cannot be. -/
structure Keeps (g : Getter) (request : Request) (s : Session) (ds : List Dispatch) (stop : FileSystem) : Prop where
  /-- When the output directory cannot be resolved and made, no tool is asked to act, and at most directories on
  the way to it are new. -/
  unopened : (∀ output files, ¬Opened request s.host output files) → ds = [] ∧
    (stop = s.host.files ∨ ∃ output, (Host.resolve request.outputDirectory).run s.host = (.ok output, s.host) ∧
      Enclosed (MadeFor output s.host.files stop) s.host.files stop)
  /-- Otherwise it stands all the while, and before and after each tool and in the end only what is in reach has
  changed. -/
  opened : ∀ {output files}, Opened request s.host output files → ∃ top, files.locate .follow output = .ok top ∧
    g.Bounded request s output files top stop ∧
    ∀ c ∈ ds, g.Bounded request s output files top c.before.files ∧
      g.Bounded request s output files top c.after.files

/-- A request that opens its output directory and changes only what is below that keeps what it should. -/
theorem keeps_of_below (hs : s.host.files.Sound) (hp : request.outputDirectory.Written)
    (hlinks : OutputUnlinked request s.host)
    (hopened : Opened request s.host output files)
    (ht : ∀ {top}, files.locate .follow output = .ok top → Outlet files output top → Enclosed (Below top) files t) :
    g.Keeps request s [] t := by
  refine ⟨fun hnone => absurd hopened (hnone output files), fun hopened' => ?_⟩
  obtain ⟨rfl, rfl⟩ := hopened.unique hopened'
  obtain ⟨top, htop, houtlet, hmade, hgrown⟩ := hopened.outlet hs hp hlinks
  have hbelow := ht htop houtlet
  refine ⟨top, htop, bounded_of_enclosed hs hmade hgrown (hbelow.mono fun l hl => .below hl) ?_, by simp⟩
  exact hbelow.directory (fun hb => hb.2 rfl) houtlet.there

/-- What is saved for a language that takes no staging directory is saved below the output directory. -/
theorem enclosed_saveFiles (htop : files.locate .follow output = .ok top) (h : Outlet files output top) {host : Host}
    {root : Path} (hresolve : (Host.resolve output).run { host with files } = (.ok root, { host with files }))
    {code : Emitter} (hcode : code.Stageable) {result : Except FileFailure (List Path)}
    (hrun : (code.saveFiles root).run files = (result, t)) : Enclosed (Below top) files t := by
  obtain ⟨-, -, -, rfl, -⟩ := run_resolve_ok_iff.1 hresolve
  have hroot : files.resolve output = .fromRoot top := resolve_eq htop
  rw [show ({ host with files } : Host).files.resolve output = .fromRoot top from hroot] at hrun
  exact Region.under_saveFiles h.below.encloses_base h.there h.proper hcode.segmented hrun

/-- The course of a request in which no name comes to its turn keeps what it should. -/
theorem Course.keeps {ds : List Dispatch} {result : Except Failure (List Path)} {stop : Host}
    (hcourse : Course g request s.host ds result stop) (hs : s.host.files.Sound)
    (hp : request.outputDirectory.Written)
    (hlinks : OutputUnlinked request s.host)
    (hnone : ∀ {output files harvester code}, Opened request s.host output files →
      Accepted g request harvester code → request.language.isPrimary = true) :
    g.Keeps request s ds stop.files := by
  cases hcourse with
  | unresolved h =>
    refine ⟨fun _ => ⟨rfl, .inl rfl⟩, fun hopened => ?_⟩
    have hresolved := hopened.resolved
    rw [h] at hresolved
    cases hresolved
  | unmade hresolve h =>
    obtain ⟨place, rfl, hproper⟩ := exists_proper_of_run_resolve hs hp hresolve
    have hmade := enclosed_makeDirectories hs hproper.written h
    refine ⟨fun _ => ⟨rfl, .inr ⟨_, hresolve, hmade⟩⟩, fun hopened => ?_⟩
    have hresolved := hopened.resolved
    rw [hresolve] at hresolved
    cases hresolved
    have hmade := hopened.made
    rw [h] at hmade
    cases hmade
  | unsupported hopened | rejected hopened | lost hopened =>
    exact keeps_of_below hs hp hlinks hopened fun _ houtlet => .refl houtlet.sound _
  | idle hopened _ _ hnoted =>
    exact keeps_of_below hs hp hlinks hopened fun _ houtlet => hnoted.enclosed houtlet.sound _
  | unsaved hopened haccepted _ hroot h =>
    exact keeps_of_below hs hp hlinks hopened fun htop houtlet =>
      enclosed_saveFiles htop houtlet hroot haccepted.stageable h
  | saved hopened haccepted _ hroot hsave hnoted =>
    refine keeps_of_below hs hp hlinks hopened fun htop houtlet => ?_
    have hsaved := enclosed_saveFiles htop houtlet hroot haccepted.stageable hsave
    exact hsaved.trans (hnoted.enclosed hsaved.sound _)
  | stopped hopened haccepted hl | unfinished hopened haccepted hl | finished hopened haccepted hl =>
    -- a name would have come to its turn
    rw [hnone hopened haccepted] at hl
    cases hl

/-- A request whose names come to their turns keeps what it should. -/
theorem run_get_keeps_of_secondary (hs : s.host.files.Sound) (hp : request.outputDirectory.Written)
    (hroot : (g.stagingRoot.getD s.host.temporary).Written)
    (hlinks : OutputUnlinked request s.host)
    (hcs : ∀ c ∈ s.dispatchesOf (g.get request), c.Contained ∧ c.AddsNoLink)
    (hopened : Opened request s.host output files) {harvester : Harvester}
    (haccepted : Accepted g request harvester code) (hl : request.language.isPrimary = false) :
    ∃ ds result t, (g.get request).run s = (result, t) ∧ t.dispatches = s.dispatches ++ ds ∧
      g.Keeps request s ds t.host.files := by
  obtain ⟨-, rfl⟩ := haccepted.harvester_eq hl
  obtain ⟨top, htop, houtlet, hmade, hgrown⟩ := hopened.outlet hs hp hlinks
  have hrooted := (Staging.grown_rooted houtlet.sound (Staging.written_of_getD hroot)).enclosed houtlet.sound
  have hunderway : Underway g request s output files code top :=
    ⟨hopened, haccepted, hl, houtlet.sound, houtlet.of_enclosed hrooted fun l hl => .inr (.inl hl.1), hroot⟩
  obtain ⟨ds, result, t, hrun, hdispatches, hend, hds⟩ := run_get_wake hunderway hcs
  refine ⟨ds, result, t, hrun, hdispatches, fun hnone => absurd hopened (hnone output files), fun hopened' => ?_⟩
  obtain ⟨rfl, rfl⟩ := hopened.unique hopened'
  have hbounded : ∀ {u}, g.InWake request s _ top u → g.Bounded request s _ _ top u :=
    fun hu => hu.bounded hs hmade hgrown houtlet hl hroot
  exact ⟨top, htop, hbounded hend, fun c hc => ⟨hbounded (hds c hc).1, hbounded (hds c hc).2⟩⟩

/-- A request changes nothing but what is below its output directory, what is at or below the staging directories that
it makes, and missing directories on the way to the one and to the staging root, and the output directory stands all
the while. This is so of whatever names it has, as long as no link is below the output directory and the tools keep
to their working directories and make no link. A log file that is open may be added to, wherever it lies. No name yields
the path of a file or of a package that is not plain. -/
theorem run_get_contained (hg : g.IsStandard) (hp : request.outputDirectory.Written) (hs : s.host.files.Sound)
    (hroot : (g.stagingRoot.getD s.host.temporary).Written)
    (hlinks : OutputUnlinked request s.host)
    (hcs : ∀ c ∈ s.dispatchesOf (g.get request), c.Contained ∧ c.AddsNoLink) :
    (∃ ds result t, (g.get request).run s = (result, t) ∧ t.dispatches = s.dispatches ++ ds ∧
      g.Keeps request s ds t.host.files) ∧
    (∀ {name c} (kind : TargetKind), Constraint.resolve name = .ok c →
      Plain (g.layout.filePath (c.source kind)) ∧ Plain (importName (c.source kind))) ∧
    ∀ {harvester code}, Accepted g request harvester code → ∀ file ∈ code.files, Plain file.1 := by
  refine ⟨?_, fun kind hc => ?_, fun haccepted file hfile => (haccepted.stageable.segmented file hfile).plain⟩
  · by_cases hturns : ∃ output files harvester code, Opened request s.host output files ∧
        Accepted g request harvester code ∧ request.language.isPrimary = false
    · obtain ⟨output, files, harvester, code, hopened, haccepted, hl⟩ := hturns
      exact run_get_keeps_of_secondary hs hp hroot hlinks hcs hopened haccepted hl
    · obtain ⟨ds, result, t, hrun, hdispatches, hcourse⟩ := run_get_course hg request s
      refine ⟨ds, result, t, hrun, hdispatches, hcourse.keeps hs hp hlinks fun hopened haccepted => ?_⟩
      exact Bool.of_not_eq_false fun hl => hturns ⟨_, _, _, _, hopened, haccepted, hl⟩
  · have hsource := Constraint.segmented_of_resolve hc kind
    obtain ⟨-, layout, hlayout⟩ := hg
    rw [hlayout]
    exact ⟨(Layout.segmented_filePath hsource layout).plain, hsource.importable.plain⟩

/-- The tools of the request for two providers make no link. -/
theorem unlinked_stocked :
    (stocked.dispatchesOf (({} : Getter).get twoNames)).all (·.after.files.isUnlinked) = true := by
  decide +kernel

/-- The request for two providers changes what is in reach on the bare host. -/
theorem run_get_contained_stocked :
    ∃ ds result t files top c, (({} : Getter).get twoNames).run stocked = (result, t) ∧
      t.dispatches = stocked.dispatches ++ ds ∧ ds.length = 4 ∧
      Opened twoNames stocked.host (.fromRoot ["out"]) files ∧
      Bounded {} twoNames stocked (.fromRoot ["out"]) files top t.host.files ∧
      (∀ d ∈ ds, Bounded {} twoNames stocked (.fromRoot ["out"]) files top d.before.files ∧
        Bounded {} twoNames stocked (.fromRoot ["out"]) files top d.after.files) ∧
      Constraint.resolve "hashicorp/aws-cn" = .ok c ∧ Plain (importName (c.source .module)) ∧
      ∀ file ∈ (({} : Getter).codeOf twoNames).files, Plain file.1 := by
  have htools : ∀ c ∈ stocked.dispatchesOf (({} : Getter).get twoNames), c.Contained ∧ c.AddsNoLink := by
    refine fun c hc => ⟨(contained_stocked hc).1, fun location target htarget => ?_⟩
    have hnone := List.all_eq_true.1 unlinked_stocked c hc
    exact absurd htarget (get?_ne_link_of_isUnlinked hnone location target)
  have hlinks : OutputUnlinked twoNames stocked.host := fun _ _ _ _ _ location target _ =>
    get?_ne_link_of_isUnlinked (by decide : stocked.host.files.isUnlinked = true) location target
  obtain ⟨⟨ds, result, t, hrun, hdispatches, hkeeps⟩, hnames, hcode⟩ :=
    run_get_contained isStandard_default (by decide : twoNames.outputDirectory.Written)
      RunOptions.sound_bareHost (by decide) hlinks htools
  obtain ⟨top, -, hbounded, hds⟩ := hkeeps.opened (opened_stocked rfl)
  have hlength := tidy_stocked.2
  rw [Session.dispatchesOf_eq hrun hdispatches] at hlength
  have hresolved : (Constraint.resolve "hashicorp/aws-cn").toOption.isSome = true := by decide +kernel
  have haccepted := isStandard_default.accepted_codeOf (rfl : Harvester.ofLanguage twoNames.language = _)
    (by decide) (isOk_iff.1 (by decide +kernel))
  cases hc : Constraint.resolve "hashicorp/aws-cn" with
  | error failure =>
    rw [hc] at hresolved
    cases hresolved
  | ok c =>
    exact ⟨ds, result, t, _, top, c, hrun, hdispatches, hlength, opened_stocked rfl, hbounded, hds, rfl,
      (hnames .module hc).2, hcode haccepted⟩

end Getter

end ProviderBindings
