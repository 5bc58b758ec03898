import ProviderBindings.FileSystem.Locate

/-!
# File operations

The operations that read and change a file tree. Each acts on the state of the tree and either
succeeds or fails with an error of the operating system about the path it was given; what an operation
did before it failed stays done. A text that is no path fails before anything is tried.
-/

namespace ProviderBindings

/-- A computation on a file tree that may fail. -/
abbrev FileAction := ExceptT FileFailure (StateM FileSystem)

namespace FileSystem

/-- Fail with an error of the operating system. -/
def failWith (e : SystemError) : FileAction α :=
  throw (.system e)

/-- Fail about a path. -/
def fail (e : Errno) (p : Path) : FileAction α :=
  failWith (.on e p)

/-- Do something else where an operation fails with an error of the operating system. -/
def orElse (work : FileAction α) (other : SystemError → FileAction α) : FileAction α :=
  tryCatch work fun
    | .system e => other e
    | failure => throw failure

/-- Fail where a path text is none. -/
def requirePath (s : String) : FileAction Unit :=
  match PathFault.ofText? s with
  | some fault => throw (.unnameable fault)
  | none => pure ()

/-- The location a path leads to, or the failure to get there. -/
def locateM (ending : Ending) (p : Path) : FileAction Location := do
  requirePath p.text
  match (← get).locate ending p with
  | .ok location => pure location
  | .error e => fail e p

/-- The outcome of a look at the tree. -/
def look (view : FileSystem → Except SystemError α) : FileAction α := do
  match view (← get) with
  | .ok a => pure a
  | .error e => failWith e

/-! ## Making directories -/

/-- Make one directory, given as a path text. Its parent must be there. -/
def makeDirectoryAt (s : String) : FileAction Unit := do
  requirePath s
  let fs ← get
  match fs.locateText .keep s with
  | .error e => failWith (.about e s)
  | .ok location =>
    if (fs.get? location).isSome then failWith (.about .alreadyExists s)
    else set (fs.put location .directory)

/-- Make one directory, whose parent must be there. -/
def makeDirectory (p : Path) : FileAction Unit :=
  makeDirectoryAt p.text

/-- Accept a directory that is already there in place of a new one. -/
def makeDirectoryIfMissing (p : Path) : FileAction Unit :=
  orElse (makeDirectory p) fun e => do
    if e.isNotFound then failWith e
    else if ← look (·.isDirectory p) then pure ()
    else failWith e

/-- Make a directory and whatever parents it lacks. A directory that is already there is fine. -/
def makeDirectories (p : Path) : FileAction Unit :=
  orElse (makeDirectoryIfMissing p) fun e => do
    if _h : e.isNotFound ∧ p.names ≠ [] then
      makeDirectories p.parent
      makeDirectoryIfMissing p
    else failWith e
  termination_by p.names.length
  decreasing_by
    simp only [Path.parent, List.length_dropLast]
    have := List.length_pos_iff.2 _h.2
    omega

/-- Make a new directory in the directory with a path text, whose name is `label`, a dash, a number sign
and the first number from `first` on that is free; gives the path of the directory. The label may itself
be a path. -/
def makeScratch (label : String) (first : Nat) (parent : String) : FileAction Path := do
  let fs ← get
  let candidate (n : Nat) : String := Path.joinText parent s!"{label}-#{n}"
  let taken (n : Nat) : Bool :=
    ((fs.locateText .keep (candidate n)).toOption.bind fs.get?).isSome
  let number := ((List.range (fs.entries.length + 1)).find? fun k => !taken (first + k)).getD 0
  let path := candidate (first + number)
  makeDirectoryAt path
  pure (.ofString path)

/-! ## Writing files -/

/-- Write a text to a file, through links; the file is made when it is missing and keeps whether it
may be run. The text is one that has bytes: it holds no half of a surrogate pair. -/
def writeText (p : Path) (s : String) : FileAction Unit := do
  let location ← locateM .write p
  let fs ← get
  match fs.get? location with
  | some .directory => fail .isADirectory p
  | some (.file _ executable) => set (fs.put location (.file (.text s) executable))
  | _ => set (fs.put location (.file (.text s) false))

/-- Open a file to add to it, through links, and hold it open; the file is made when it is missing. -/
def hold (p : Path) : FileAction Unit := do
  let location ← locateM .write p
  let fs ← get
  match fs.get? location with
  | some .directory => fail .isADirectory p
  | some (.file _ _) => set { fs with held := some location }
  | _ => set { fs.put location (.file (.text "") false) with held := some location }

/-! ## Removing -/

/-- Remove a file or a link. -/
def unlink (p : Path) : FileAction Unit := do
  let location ← locateM .keep p
  let fs ← get
  match fs.get? location with
  | none => fail .notFound p
  | some .directory => fail .isADirectory p
  | some _ => set (fs.remove location)

/-- Remove an empty directory. It has to be called by its name: dots and the root do not do. -/
def removeDirectory (p : Path) : FileAction Unit := do
  let location ← locateM .keep p
  let fs ← get
  match p.names.getLast?, fs.get? location with
  | none, _ => fail (if p.isAbsolute then .busy else .invalid) p
  | some "..", _ => fail .notEmpty p
  | some _, none => fail .notFound p
  | some _, some .directory =>
    if fs.isEmptyBelow location then set (fs.remove location) else fail .notEmpty p
  | some _, some _ => fail .notADirectory p

/-- Remove a directory with all that is below it. A link is not followed. -/
def removeTree (p : Path) : FileAction Unit := do
  let location ← locateM .keep p
  let fs ← get
  match fs.get? location with
  | none => fail .notFound p
  | some .directory => do
    set (fs.clear location)
    removeDirectory p
  | some (.link _) => failWith (.worded "Cannot call rmtree on a symbolic link")
  | some (.file _ _) => fail .notADirectory p

/-- Remove a directory with all that is below it, as far as that can be done. -/
def removeTreeQuietly (p : Path) : FileAction Unit :=
  tryCatch (removeTree p) fun _ => pure ()

/-! ## Moving -/

/-- Whether an entry may take the place of another when it is renamed to it. -/
def replaceable (fs : FileSystem) (moved : Entry) (location : Location) : Except Errno Unit :=
  match moved, fs.get? location with
  | _, none => .ok ()
  | .directory, some .directory =>
    if fs.isEmptyBelow location then .ok () else .error .notEmpty
  | .directory, some _ => .error .notADirectory
  | _, some .directory => .error .isADirectory
  | _, some _ => .ok ()

/-- Whether the last name of a path is one that a thing can be renamed from or to. -/
def isProperlyNamed (p : Path) : Bool :=
  !p.names.isEmpty && p.name != ".."

/-- Give what stands at `source` the path `target`; nothing is followed at the end of either path. -/
def rename (source target : Path) : FileAction Unit := do
  let failed {α : Type} (e : Errno) : FileAction α :=
    failWith (.moving e.code e.reason source.text target.text)
  requirePath source.text
  requirePath target.text
  let fs ← get
  match fs.locate .keep source, fs.locate .keep target with
  | .error e, _ => failed e
  | _, .error e => failed e
  | .ok src, .ok dst =>
    if !(isProperlyNamed source && isProperlyNamed target) then failed .busy
    else
      match fs.get? src with
      | none => failed .notFound
      | some moved =>
        if src == dst then pure ()
        else if within src dst then failed .invalid
        else match fs.replaceable moved dst with
          | .error e => failed e
          | .ok _ => set ((fs.remove dst).transplant src dst)

/-- The entries right below a location. -/
def children (fs : FileSystem) (location : Location) : List (Location × Entry) :=
  fs.entries.filter fun entry => within location entry.1 && entry.1.length == location.length + 1

/-- Copy entries right below `source`, with all that is below them, to places right below `target`. What is
in a directory is told before its copy is made. No tree is deeper than `depth`. -/
def copyEntries : Nat → Location → Location → List (Location × Entry) → StateM FileSystem Unit
  | 0, _, _, _ => pure ()
  | depth + 1, source, target, below =>
    below.forM fun (location, entry) => do
      let copy := target ++ location.drop source.length
      let inside := (← get).children location
      modify (·.put copy entry)
      copyEntries depth location copy inside

/-- Copy a directory to a path where nothing stands, and remove it. -/
def moveByCopy (source target : Path) : FileAction Unit := do
  let src ← locateM .follow source
  let fs ← get
  makeDirectory target
  let dst ← locateM .keep target
  copyEntries (fs.entries.length + 1) src dst (fs.children src)
  removeTree source

/-- Rename what stands at `source`. Where that is not possible a directory is copied and a file written
anew, and the failure of that is the one reported. `wanted` is the path that the move was asked for. -/
def moveTo (source wanted target : Path) : FileAction Unit :=
  orElse (rename source target) fun _ => do
    let fs ← get
    match fs.status .keep source with
    | .ok (some (.link text)) =>
      failWith (.moving Errno.alreadyExists.code Errno.alreadyExists.reason text target.text)
    | _ =>
      if fs.showsDirectory source.text then
        if within (fs.spelled source) (fs.spelled wanted) then
          failWith (.worded ("Cannot move a directory '" ++ source.text ++ "' into itself '" ++
            wanted.text ++ "'."))
        else moveByCopy source target
      else do
        let _ ← locateM .follow source
        if (fs.glance source.text).isSome then fail .notADirectory target else fail .notFound source

/-- Move what stands at `source` to `target`. Into a directory that stands there already it goes
under its own name, unless it is that directory. -/
def move (source target : Path) : FileAction Unit := do
  let fs ← get
  if !fs.showsDirectory target.text then moveTo source target target
  else if (fs.locate .follow source).toOption == (fs.locate .follow target).toOption then
    rename source target
  else
    let place := target.child source.name
    if (fs.glance place.text).isSome then
      failWith (.worded ("Destination path '" ++ place.text ++ "' already exists"))
    moveTo source target place

end FileSystem

end ProviderBindings
