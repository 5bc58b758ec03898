import ProviderBindings.Text.Half
import ProviderBindings.Text.Split

/-!
# Paths

A path is an anchor and a list of names. Empty names and single dots vanish when a path is read, so
that two spellings of one path are equal; double dots stay, since what they mean depends on links. The
text of a link is walked as it stands, and so it is a `Route`, which keeps single dots and a slash at
the end.
-/

namespace ProviderBindings

/-- Where a path starts: at the working directory, at the root, or at the root written with exactly
two slashes, a spelling that is kept. -/
inductive Anchor where
  | relative
  | root
  | doubleRoot
  deriving DecidableEq, Repr

/-- A path of the file system. -/
structure Path where
  /-- Where it starts. -/
  anchor : Anchor
  /-- The names on the way, none of them empty or a single dot. -/
  names : List String
  deriving DecidableEq, Repr

namespace Path

/-- The names of a path text: what stands between slashes, without empty names and single dots. -/
def namesOf (s : String) : List String :=
  (Text.split '/' s).filter fun name => name != "" && name != "."

/-- The anchor that a path text starts with. -/
def anchorOf (s : String) : Anchor :=
  match s.toList with
  | '/' :: '/' :: '/' :: _ => .root
  | '/' :: '/' :: _ => .doubleRoot
  | '/' :: _ => .root
  | _ => .relative

/-- The path that a text denotes. -/
def ofString (s : String) : Path :=
  ⟨anchorOf s, namesOf s⟩

/-- The path from the root along the given names. -/
def fromRoot (names : List String) : Path :=
  ⟨.root, names⟩

/-- The text of a path; the empty relative path is a dot. -/
def text (p : Path) : String :=
  match p.anchor with
  | .relative => if p.names.isEmpty then "." else String.intercalate "/" p.names
  | .root => "/" ++ String.intercalate "/" p.names
  | .doubleRoot => "//" ++ String.intercalate "/" p.names

/-- Whether the path starts at the root. -/
def isAbsolute (p : Path) : Bool :=
  p.anchor != .relative

/-- The path `q` taken from `p`: `q` itself when it is absolute. -/
def join (p q : Path) : Path :=
  if q.isAbsolute then q else ⟨p.anchor, p.names ++ q.names⟩

/-- The path that a text denotes, taken from `p`. -/
def child (p : Path) (s : String) : Path :=
  p.join (ofString s)

/-- The path without its last name; a path without names is its own parent. -/
def parent (p : Path) : Path :=
  ⟨p.anchor, p.names.dropLast⟩

/-- The last name, or the empty text. -/
def name (p : Path) : String :=
  p.names.getLastD ""

/-- The names after double dots have taken away the name before them, without looking at links. -/
def collapse (names : List String) : List String :=
  names.foldl (fun acc name =>
    if name = ".." then acc.dropLast else if name = "" || name = "." then acc else acc ++ [name]) []

/-- A path text joined to another: the second alone when it starts at the root. -/
def joinText (base s : String) : String :=
  if s.startsWith "/" then s
  else if base.isEmpty || base.endsWith "/" then base ++ s
  else base ++ "/" ++ s

end Path

/-- What is walked along a path text: where it starts, and the names on the way. A slash at the end is an
empty name at the end. -/
structure Route where
  fromRoot : Bool
  names : List String
  deriving DecidableEq, Repr

namespace Route

/-- The route that a path text describes. -/
def ofString (s : String) : Route :=
  let pieces := Text.split '/' s
  let names := pieces.filter (· != "")
  let ended := !names.isEmpty && pieces.getLast? == some ""
  ⟨s.startsWith "/", if ended then names ++ [""] else names⟩

end Route

/-- The route of a path. -/
def Path.route (p : Path) : Route :=
  ⟨p.isAbsolute, p.names⟩

/-- Why a text is the path of nothing that could ever be. -/
inductive PathFault where
  /-- It holds a half of a surrogate pair for which there are no bytes. -/
  | half
  /-- It holds the zero byte, which ends path texts. -/
  | zeroByte
  deriving DecidableEq, Repr

namespace PathFault

/-- Whether a character is a half of a surrogate pair, other than those that stand for a byte of a name
that is no text. -/
def isHalf (c : Char) : Bool :=
  match Text.half? c with
  | some n => !(0xDC80 ≤ n && n ≤ 0xDCFF)
  | none => false

/-- The fault of a path text, if it has one. -/
def ofText? (s : String) : Option PathFault :=
  if s.toList.any isHalf then some half
  else if s.toList.contains '\x00' then some zeroByte
  else none

end PathFault

end ProviderBindings
