import ProviderBindings.Proofs.FileSystem.Making

/-!
# Trees of one shape

The shape of an entry is the entry without what a file holds. Walks see shapes only, so that paths lead the
same way in two trees of one shape (`locate_eq_of_same`), and whatever only makes directories succeeds in
both or in neither and leaves trees of one shape (`makeDirectories_same`). `SameOutside` says that two trees
have one shape but for some places, which is how the changes that one step makes are told.
-/

namespace ProviderBindings

/-- An entry without what it holds. -/
def Entry.shape : Entry → Entry
  | .file _ _ => .file (.text "") false
  | entry => entry

namespace FileSystem

variable {fs t u : FileSystem} {ending : Ending}

/-- The shape of what stands at a location. -/
def shapeAt (fs : FileSystem) (location : Location) : Option Entry :=
  (fs.get? location).map Entry.shape

/-- Only a directory has the shape of one. -/
theorem map_shape_eq_directory {found : Option Entry} :
    found.map Entry.shape = some .directory ↔ found = some .directory := by
  cases found with
  | none => simp
  | some entry => cases entry <;> simp [Entry.shape]

/-- Where the shape is a directory, one stands. -/
theorem shapeAt_eq_directory {location : Location} :
    fs.shapeAt location = some .directory ↔ fs.get? location = some .directory :=
  map_shape_eq_directory

/-- Where the shape is a link, it stands there. -/
theorem shapeAt_eq_link {location : Location} {target : String} :
    fs.shapeAt location = some (.link target) ↔ fs.get? location = some (.link target) := by
  unfold shapeAt
  cases fs.get? location with
  | none => simp
  | some entry => cases entry <;> simp [Entry.shape]

/-- Where there is no shape, nothing stands. -/
theorem shapeAt_eq_none {location : Location} :
    fs.shapeAt location = none ↔ fs.get? location = none := by
  unfold shapeAt
  simp

/-- Entries are alike when they have one shape. -/
theorem alike_iff {a b : Entry} : Alike a b ↔ a.shape = b.shape := by
  cases a <;> cases b <;> simp [Alike, Entry.shape]

/-- Whether two trees have one shape outside some places. -/
def SameOutside (zone : Location → Prop) (fs t : FileSystem) : Prop :=
  ∀ location, ¬zone location → t.shapeAt location = fs.shapeAt location

variable {zone zone' : Location → Prop}

/-- What has one shape with a second tree, and that with a third, has it with the third. -/
theorem SameOutside.trans (h : SameOutside zone fs t) (ht : SameOutside zone t u) :
    SameOutside zone fs u :=
  fun location hl => (ht location hl).trans (h location hl)

/-- Trees have one shape outside more places. -/
theorem SameOutside.mono (h : SameOutside zone fs t) (hz : ∀ l, zone l → zone' l) :
    SameOutside zone' fs t :=
  fun location hl => h location fun hzl => hl (hz location hzl)

/-- A tree carries another when they have one shape outside places where nothing stood. -/
theorem SameOutside.carries (h : SameOutside zone fs t)
    (hz : ∀ l, zone l → fs.get? l = none ∨ isNameless l) : Carries fs t := by
  intro location entry he
  by_cases hname : isNameless location
  · rw [get?_of_isNameless hname] at he ⊢
    cases he
    exact ⟨.directory, rfl, trivial⟩
  · have hnot : ¬zone location := by
      intro hl
      rcases hz location hl with hn | hn
      · rw [he] at hn
        cases hn
      · exact hname hn
    have hshape := h location hnot
    unfold shapeAt at hshape
    rw [he] at hshape
    obtain ⟨other, hother, hsame⟩ := Option.map_eq_some_iff.1 hshape
    exact ⟨other, hother, alike_iff.2 hsame.symm⟩

/-- A tree in which the log file was added to has the shape it had. -/
theorem Sound.same_writeHeld (h : fs.Sound) (zone : Location → Prop) (s : String) :
    SameOutside zone fs (fs.writeHeld s) := by
  intro location _
  unfold shapeAt
  rw [get?_writeHeld h]
  cases fs.get? location with
  | none => rfl
  | some entry => cases entry <;> rfl

/-! ## Walks see shapes -/

/-- Walks in two trees of one shape stop at the same place. -/
theorem walk_eq_of_same (h : SameOutside (fun _ => False) fs t) (here : Location)
    (names : List String) : t.walk ending here names = fs.walk ending here names := by
  induction names generalizing here with
  | nil => rfl
  | cons name rest ih =>
    have hshape := h (here ++ [name]) id
    unfold shapeAt at hshape
    rw [walk, walk, ih here, ih here.dropLast]
    dsimp only
    rw [ih (here ++ [name])]
    cases hf : fs.get? (here ++ [name]) with
    | none =>
      rw [hf] at hshape
      rw [Option.map_eq_none_iff.1 hshape]
    | some entry =>
      rw [hf] at hshape
      obtain ⟨other, hother, hsame⟩ := Option.map_eq_some_iff.1 hshape
      rw [hother]
      cases entry <;> cases other <;> simp_all [Entry.shape]

/-- Names lead the same way, or fail the same way, in two trees of one shape. -/
theorem locateFrom_eq_of_same (h : SameOutside (fun _ => False) fs t) (budget : Nat)
    (here : Location) (names : List String) :
    t.locateFrom ending budget here names = fs.locateFrom ending budget here names := by
  induction budget generalizing here names with
  | zero => rw [locateFrom, locateFrom, walk_eq_of_same h]
  | succ budget ih =>
    rw [locateFrom, locateFrom, walk_eq_of_same h]
    cases fs.walk ending here names with
    | arrived location => rfl
    | failed e => rfl
    | link base target rest => exact ih _ _

/-- A path leads the same way, or fails the same way, in two trees of one shape. -/
theorem locate_eq_of_same (h : SameOutside (fun _ => False) fs t) {p : Path}
    (hw : t.startOf p = fs.startOf p) : t.locate ending p = fs.locate ending p := by
  show t.locateRoute ending p.text p.route = fs.locateRoute ending p.text p.route
  have hstart : (if p.route.fromRoot then [] else t.workingDirectory) =
      (if p.route.fromRoot then [] else fs.workingDirectory) := hw
  unfold locateRoute
  rw [locateFrom_eq_of_same h, hstart]

/-! ## Work that comes to the same -/

/-- Whether work comes to the same in trees of a relation, and leaves trees of the relation. -/
def Agrees {α : Type} (rel : FileSystem → FileSystem → Prop) (work : FileAction α) : Prop :=
  ∀ fs t, rel fs t → (work.run t).1 = (work.run fs).1 ∧ rel (work.run fs).2 (work.run t).2

variable {α β : Type} {rel : FileSystem → FileSystem → Prop}

/-- Work that gives a value comes to the same. -/
theorem agrees_pure (a : α) : Agrees rel (pure a) :=
  fun _ _ h => ⟨rfl, h⟩

/-- Work that fails comes to the same. -/
theorem agrees_throw (failure : FileFailure) : Agrees rel (throw failure : FileAction α) :=
  fun _ _ h => ⟨rfl, h⟩

/-- A sequence of work that comes to the same comes to the same. -/
theorem Agrees.bind {x : FileAction α} {f : α → FileAction β} (hx : Agrees rel x)
    (hf : ∀ a, Agrees rel (f a)) : Agrees rel (x >>= f) := by
  intro fs t h
  obtain ⟨hresult, hafter⟩ := hx fs t h
  rw [run_bind, run_bind]
  revert hresult hafter
  rcases x.run fs with ⟨e | a, fs'⟩ <;> rcases x.run t with ⟨e' | a', t'⟩ <;> intro hresult hafter
  · cases hresult
    exact ⟨rfl, hafter⟩
  · cases hresult
  · cases hresult
  · cases hresult
    exact hf a _ _ hafter

/-- Work with a handler comes to the same when both do. -/
theorem Agrees.orElse {x : FileAction α} {other : SystemError → FileAction α} (hx : Agrees rel x)
    (ho : ∀ e, Agrees rel (other e)) : Agrees rel (orElse x other) := by
  intro fs t h
  obtain ⟨hresult, hafter⟩ := hx fs t h
  rw [run_orElse, run_orElse]
  revert hresult hafter
  rcases x.run fs with ⟨⟨e | e⟩ | a, fs'⟩ <;> rcases x.run t with ⟨e' | a', t'⟩ <;>
    intro hresult hafter <;> cases hresult
  · exact ho e _ _ hafter
  · exact ⟨rfl, hafter⟩
  · exact ⟨rfl, hafter⟩

/-- A look comes to the same where the trees look the same. -/
theorem agrees_look {view : FileSystem → Except SystemError α}
    (h : ∀ {fs t}, rel fs t → view t = view fs) : Agrees rel (look view) := by
  intro fs t hrel
  rw [run_look, run_look, h hrel]
  exact ⟨rfl, hrel⟩

/-- Whether a path leads the same way in trees of a relation, to places of one shape, and the trees are
still in the relation when a directory was made there. -/
structure Insensitive (rel : FileSystem → FileSystem → Prop) (p : Path) : Prop where
  /-- The path leads to the same place. -/
  locate : ∀ {fs t ending}, rel fs t → t.locate ending p = fs.locate ending p
  /-- The place has the same shape. -/
  shape : ∀ {fs t ending place}, rel fs t → fs.locate ending p = .ok place →
    t.shapeAt place = fs.shapeAt place
  /-- A directory that is made there keeps the relation. -/
  put : ∀ {fs t place}, rel fs t → fs.locate .keep p = .ok place → fs.get? place = none →
    rel (fs.put place .directory) (t.put place .directory)

/-- What stands where a path leads has one shape in trees that are insensitive to the path. -/
theorem Insensitive.status {p : Path} (h : Insensitive rel p) (hr : rel fs t) :
    (t.status ending p).map (Option.map Entry.shape) =
      (fs.status ending p).map (Option.map Entry.shape) := by
  unfold FileSystem.status
  rw [h.locate hr]
  split
  · rfl
  · cases hl : fs.locate ending p with
    | error e => cases e <;> rfl
    | ok place => exact congrArg Except.ok (h.shape hr hl)

/-- A directory is one in both trees or in neither. -/
theorem Insensitive.isDirectory {p : Path} (h : Insensitive rel p) (hr : rel fs t) :
    t.isDirectory p = fs.isDirectory p := by
  have hstatus : (t.status .follow p).map (Option.map Entry.shape) =
      (fs.status .follow p).map (Option.map Entry.shape) := h.status hr
  unfold FileSystem.isDirectory
  revert hstatus
  cases fs.status .follow p <;> cases t.status .follow p <;> intro hstatus
  · obtain rfl := Except.error.inj hstatus
    rfl
  · cases hstatus
  · cases hstatus
  · next a b =>
    have hshape : b.map Entry.shape = a.map Entry.shape := Except.ok.inj hstatus
    have hiff : b = some .directory ↔ a = some .directory := by
      rw [← map_shape_eq_directory, hshape, map_shape_eq_directory]
    refine congrArg Except.ok ?_
    rw [Bool.eq_iff_iff, beq_iff_eq, beq_iff_eq, hiff]

/-- A directory can be made in both trees or in neither. -/
theorem Insensitive.makeDirectory {p : Path} (h : Insensitive rel p) (hp : p.Written) :
    Agrees rel (makeDirectory p) := by
  intro fs t hr
  rw [FileSystem.makeDirectory, run_makeDirectoryAt, run_makeDirectoryAt, locateText_text _ _ hp,
    locateText_text _ _ hp, h.locate hr]
  cases PathFault.ofText? p.text with
  | some fault => exact ⟨rfl, hr⟩
  | none =>
    cases hl : fs.locate .keep p with
    | error e => exact ⟨rfl, hr⟩
    | ok place =>
      have hshape := h.shape hr hl
      unfold shapeAt at hshape
      have hsome : (t.get? place).isSome = (fs.get? place).isSome := by
        rw [← Option.isSome_map (f := Entry.shape), hshape, Option.isSome_map]
      dsimp only
      rw [hsome]
      by_cases hthere : (fs.get? place).isSome = true
      · rw [if_pos hthere, if_pos hthere]
        exact ⟨rfl, hr⟩
      · rw [if_neg hthere, if_neg hthere]
        exact ⟨rfl, h.put hr hl (by simpa using hthere)⟩

/-- A directory can be made if it is missing in both trees or in neither. -/
theorem Insensitive.makeDirectoryIfMissing {p : Path} (h : Insensitive rel p) (hp : p.Written) :
    Agrees rel (makeDirectoryIfMissing p) := by
  refine (h.makeDirectory hp).orElse fun e => ?_
  split
  · exact agrees_throw _
  · refine (agrees_look fun hr => h.isDirectory hr).bind fun there => ?_
    split
    · exact agrees_pure _
    · exact agrees_throw _

/-- Directories can be made on the way in both trees or in neither, when that holds of every part of the
way. -/
theorem agrees_makeDirectories {p : Path} (hp : p.Written)
    (h : ∀ q : Path, q.anchor = p.anchor → q.names <+: p.names → Insensitive rel q) :
    Agrees rel (makeDirectories p) := by
  induction p using Path.parent_induction with
  | step p ih =>
    rw [makeDirectories]
    have hlast := (h p rfl (List.prefix_refl _)).makeDirectoryIfMissing hp
    refine hlast.orElse fun e => ?_
    split
    · next hmissing =>
      refine Agrees.bind (ih hmissing.2 hp.parent fun q hq hpre => ?_) fun _ => hlast
      exact h q hq (hpre.trans (List.dropLast_prefix _))
    · exact agrees_throw _

/-- Whether two trees differ in nothing but what was added to the file that is held open. -/
structure Same (fs t : FileSystem) : Prop where
  /-- The trees have one shape. -/
  shape : SameOutside (fun _ => False) fs t
  /-- What is not the file that is held open is the same. -/
  kept : ∀ {location}, fs.held ≠ some location → t.get? location = fs.get? location
  /-- The working directory is the same. -/
  working : t.workingDirectory = fs.workingDirectory
  /-- The same file is held open. -/
  held : t.held = fs.held

/-- A tree in which the log file was added to differs in nothing else. -/
theorem Sound.same_of_writeHeld (h : fs.Sound) (s : String) : Same fs (fs.writeHeld s) := by
  refine ⟨h.same_writeHeld _ s, fun {location} hl => ?_, (writeHeld_frame fs s).1, (writeHeld_frame fs s).2⟩
  rw [get?_writeHeld h]
  cases fs.get? location with
  | none => rfl
  | some entry => cases entry <;> simp [hl]

/-- Trees that differ in nothing but the log file are insensitive to every path. -/
theorem insensitive_same (p : Path) : Insensitive Same p := by
  refine ⟨fun h => locate_eq_of_same h.shape (startOf_eq h.working p), fun h _ => h.shape _ id,
    fun {fs t place} h hl hn => ?_⟩
  · have hn' : t.get? place = none := by
      rw [← shapeAt_eq_none, h.shape place id, shapeAt_eq_none, hn]
    have hput : ∀ location, (fs.put place .directory).get? location =
        if place = location then some .directory else fs.get? location :=
      fun location => get?_put _ location (not_isNameless_of_get?_none hn)
    have hput' : ∀ location, (t.put place .directory).get? location =
        if place = location then some .directory else t.get? location :=
      fun location => get?_put _ location (not_isNameless_of_get?_none hn')
    refine ⟨fun location _ => ?_, fun {location} hheld => ?_, h.working, h.held⟩
    · have hlocation := h.shape location id
      unfold shapeAt at hlocation ⊢
      rw [hput, hput']
      split
      · rfl
      · exact hlocation
    · rw [hput, hput']
      split
      · rfl
      · exact h.kept hheld

/-- Directories can be made on the way in both of two trees that differ in nothing but the log file, or in
neither. -/
theorem makeDirectories_same {p : Path} (hp : p.Written) : Agrees Same (makeDirectories p) :=
  agrees_makeDirectories hp fun q _ _ => insensitive_same q

end FileSystem

end ProviderBindings
