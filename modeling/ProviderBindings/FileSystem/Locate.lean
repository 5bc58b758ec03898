import ProviderBindings.FileSystem.Basic
import ProviderBindings.SystemError

/-!
# Following paths

`locate` walks a path name by name, through links, to the location that an operation on the path
acts on; `resolve` gives the absolute path without links and double dots, whether or not anything
stands there. A walk follows at most forty links, and `resolve` follows no link inside itself, so both
always end.

A name has at most 255 bytes and a path text less than 4096. A longer one leads nowhere, which is an
error of its own and not the same as leading to a place where nothing stands.
-/

namespace ProviderBindings.FileSystem

variable (fs : FileSystem)

/-- What becomes of the end of a path. -/
inductive Ending where
  /-- A link there is where the path leads. -/
  | keep
  /-- A link there is followed. -/
  | follow
  /-- A link there is followed, and a file is to be written, so that a slash at the end is a fault. -/
  | write
  deriving DecidableEq, Repr

/-- Where a walk without following links comes to. -/
inductive Stop where
  /-- The walk is over; nothing need stand at the location, but its parent is a directory. -/
  | arrived (location : Location)
  /-- A link stands in the way, with the directory it is in and the names left after it. -/
  | link (base : Location) (target : String) (rest : List String)
  | failed (e : Errno)

/-- How many bytes a name may have. -/
def maxNameSize : Nat := 255

/-- How many bytes a path text may have. -/
def maxPathSize : Nat := 4095

/-- Whether a name stays where it is: a single dot, and the nothing after a slash at the end. -/
def isIdle (name : String) : Bool :=
  name == "" || name == "."

/-- Walk from a directory along names up to the first link. The last name is only followed as a
link when the ending says so. -/
def walk (ending : Ending) (here : Location) : List String → Stop
  | [] => .arrived here
  | name :: rest =>
    if isIdle name then walk ending here rest
    else if name = ".." then walk ending here.dropLast rest
    else if ending = .write && rest == [""] then .failed .isADirectory
    else if name.utf8ByteSize > maxNameSize then .failed .nameTooLong
    else if isGone here then .failed .notFound
    else
      let next := here ++ [name]
      match fs.get? next with
      | some .directory => walk ending next rest
      | some (.link target) =>
        if rest.isEmpty && ending = .keep then .arrived next else .link here target rest
      | some (.file _ _) => if rest.isEmpty then .arrived next else .failed .notADirectory
      | none => if rest.isEmpty then .arrived next else .failed .notFound

/-- Walk from a directory along names, following at most the given number of links. -/
def locateFrom (ending : Ending) : Nat → Location → List String → Except Errno Location
  | links, here, names =>
    match fs.walk ending here names with
    | .arrived location => .ok location
    | .failed e => .error e
    | .link base target rest =>
      match links with
      | 0 => .error .tooManyLinks
      | links + 1 =>
        let route := Route.ofString target
        locateFrom ending links (if route.fromRoot then [] else base) (route.names ++ rest)

/-- How many links a walk follows before it gives up. -/
def maxLinks : Nat := 40

/-- The location that a route leads to, given the text it is written in. -/
def locateRoute (ending : Ending) (text : String) (route : Route) : Except Errno Location :=
  if text.utf8ByteSize > maxPathSize then .error .nameTooLong
  else fs.locateFrom ending maxLinks (if route.fromRoot then [] else fs.workingDirectory) route.names

/-- The location that a path leads to. -/
def locate (ending : Ending) (p : Path) : Except Errno Location :=
  fs.locateRoute ending p.text p.route

/-- The location that a path text leads to as it stands. The empty text leads nowhere. -/
def locateText (ending : Ending) (s : String) : Except Errno Location :=
  if s.isEmpty then .error .notFound else fs.locateRoute ending s (.ofString s)

/-- The entry that a path leads to. None means that nothing stands there, or that nothing could; a path
that is too long is an error. -/
def status (ending : Ending) (p : Path) : Except SystemError (Option Entry) :=
  if (PathFault.ofText? p.text).isSome then .ok none
  else
    match fs.locate ending p with
    | .ok location => .ok (fs.get? location)
    | .error .nameTooLong => .error (.on .nameTooLong p)
    | .error _ => .ok none

/-- The entry that a path text leads to as it stands, through links, if it leads to any. -/
def glance (s : String) : Option Entry :=
  if (PathFault.ofText? s).isSome then none
  else (fs.locateText .follow s).toOption.bind fs.get?

/-- Whether something stands where the path leads. -/
def pathExists (p : Path) : Except SystemError Bool :=
  (fs.status .follow p).map Option.isSome

/-- Whether the path leads to a regular file. -/
def isFile (p : Path) : Except SystemError Bool :=
  (fs.status .follow p).map fun
    | some (.file _ _) => true
    | _ => false

/-- Whether the path leads to a directory. -/
def isDirectory (p : Path) : Except SystemError Bool :=
  (fs.status .follow p).map (· == some .directory)

/-- Whether a link stands at the path itself. -/
def isLink (p : Path) : Except SystemError Bool :=
  (fs.status .keep p).map fun
    | some (.link _) => true
    | _ => false

/-- Whether a path text leads to a directory. -/
def showsDirectory (s : String) : Bool :=
  fs.glance s == some .directory

/-- Whether a path text leads to a regular file that may be run. -/
def showsExecutable (s : String) : Bool :=
  match fs.glance s with
  | some (.file _ executable) => executable
  | _ => false

/-! ## Paths without links -/

/-- The location that names spell from another, where the text of the names may itself start at the
root. -/
def spellFrom (base : Location) (names : List String) : Location :=
  match names with
  | "" :: name :: rest => Path.collapse (name :: rest)
  | _ => Path.collapse (base ++ names)

/-- The location that names lead to from another, double dots taken back, and whether the names came to
an end; names beyond what exists are kept. `follow` tells where a link with a given location and target
leads to, and whether it leads there to its end; if not, the names after it are only spelled out. -/
def resolveAlong (follow : Location → String → Location × Bool) (here : Location) :
    List String → Location × Bool
  | [] => (here, true)
  | name :: rest =>
    if isIdle name then resolveAlong follow here rest
    else if name = ".." then resolveAlong follow here.dropLast rest
    else
      let next := here ++ [name]
      match fs.get? next with
      | some (.link target) =>
        let (reached, ended) := follow next target
        if ended then resolveAlong follow reached rest else (spellFrom reached rest, false)
      | _ => resolveAlong follow next rest

/-- The location that names lead to from another, links followed where there are any. A link that comes
up again while it is being followed ends the walk. `following` holds the links being followed, and
`depth` bounds how many more of them there can be. -/
def resolveFrom : Nat → List Location → Location → List String → Location × Bool
  | 0, _ => fs.resolveAlong fun next _ => (next, false)
  | depth + 1, following => fs.resolveAlong fun next target =>
    if next ∈ following then (next, false)
    else
      resolveFrom depth (next :: following) (if target.startsWith "/" then [] else next.dropLast)
        (Text.split '/' target)

/-- The fault of the first name of a path that has one. -/
def nameFault? (p : Path) : Option PathFault :=
  p.names.findSome? PathFault.ofText?

/-- The names from the root that a path spells, double dots taking back the name before them without
a look at links. -/
def spelled (p : Path) : List String :=
  Path.collapse ((if p.isAbsolute then [] else fs.workingDirectory) ++ p.names)

/-- The absolute path that a path stands for, free of double dots and of links, unless they go round
in a circle. -/
def resolve (p : Path) : Path :=
  let start := if p.isAbsolute then [] else fs.workingDirectory
  .fromRoot (fs.resolveFrom fs.entries.length [] start p.names).1

/-- Whether following a path takes more links than a walk follows. -/
def isEndless (p : Path) : Bool :=
  match fs.locate .follow p with
  | .error .tooManyLinks => true
  | _ => false

end ProviderBindings.FileSystem
