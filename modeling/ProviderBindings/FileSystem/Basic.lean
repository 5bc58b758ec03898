import ProviderBindings.Assoc
import ProviderBindings.Path

/-!
# File trees

A file system is a table from locations to entries, with the working directory of the process that
looks at it. A location is the list of names from the root to an entry; the root itself is always a
directory. `get?` is the one view of a tree, and every change to a tree is a `put` of an entry at a
location or the removal of everything at and below one; `get?_put`, `get?_remove` and `get?_clear` say
what stands where afterwards.
-/

namespace ProviderBindings

/-- What a file holds: a text, or bytes that are no text in UTF-8. -/
inductive Content where
  | text (s : String)
  | bytes (values : List UInt8)
  deriving DecidableEq, Repr

/-- The content made of the given bytes, as a text where they are one. -/
def Content.ofBytes (values : List UInt8) : Content :=
  match String.fromUTF8? ⟨values.toArray⟩ with
  | some s => .text s
  | none => .bytes values

/-- The content with a text added at its end. -/
def Content.append (s : String) : Content → Content
  | .text start => .text (start ++ s)
  | .bytes values => .bytes (values ++ s.toUTF8.toList)

/-- What stands at a location. -/
inductive Entry where
  | file (content : Content) (executable : Bool)
  | directory
  /-- A symbolic link, with the text of the path it leads to. -/
  | link (target : String)
  deriving DecidableEq, Repr

/-- The names from the root to an entry. The root has none, and a directory that has been removed while it
was in use has an empty last name. -/
abbrev Location := List String

/-- A tree of entries, seen from a working directory. -/
structure FileSystem where
  /-- The entries below the root. -/
  entries : List (Location × Entry) := []
  /-- The location that relative paths start at. -/
  workingDirectory : Location := []
  /-- The file that is held open to be written to, as long as it has not been removed. -/
  held : Option Location := none

namespace FileSystem

variable (fs : FileSystem)

/-- Whether a location has no name: the root, or a directory that has been removed. -/
def isNameless (location : Location) : Bool :=
  location.getLastD "" == ""

/-- Whether a location is that of a directory that has been removed. -/
def isGone (location : Location) : Bool :=
  !location.isEmpty && isNameless location

/-- The entry at a location. -/
def get? (location : Location) : Option Entry :=
  if isNameless location then some .directory else Assoc.get? location fs.entries

/-- The tree with an entry put at a location. -/
def put (location : Location) (entry : Entry) : FileSystem :=
  { fs with entries := Assoc.set location entry fs.entries }

/-- Whether the second location is the first or lies below it. -/
def within (top location : Location) : Bool :=
  top.isPrefixOf location

/-- A location after everything whose names start with `kept` names and go on has been removed. -/
def detach (kept : Location) (location : Location) : Location :=
  kept ++ List.replicate (location.length - kept.length) ""

/-- The tree without what stands at or below a location. -/
def remove (top : Location) : FileSystem :=
  { entries := fs.entries.filter fun entry => !within top entry.1
    workingDirectory :=
      if within top fs.workingDirectory then detach top.dropLast fs.workingDirectory
      else fs.workingDirectory
    held := fs.held.filter (!within top ·) }

/-- The tree without what stands below a location; what stands at it stays. -/
def clear (top : Location) : FileSystem :=
  { entries := fs.entries.filter fun entry => entry.1 == top || !within top entry.1
    workingDirectory :=
      if within top fs.workingDirectory then detach top fs.workingDirectory else fs.workingDirectory
    held := fs.held.filter fun location => location == top || !within top location }

/-- Whether nothing stands below a location. -/
def isEmptyBelow (top : Location) : Bool :=
  fs.entries.all fun entry => entry.1 == top || !within top entry.1

/-- A location after what stood at and below `source` was moved to `target`. -/
def moved (source target location : Location) : Location :=
  if within source location then target ++ location.drop source.length else location

/-- The tree in which what stood at and below `source` stands at and below `target`, where nothing
stood. -/
def transplant (source target : Location) : FileSystem :=
  { entries := fs.entries.map fun (location, entry) => (moved source target location, entry)
    workingDirectory := moved source target fs.workingDirectory
    held := fs.held.map (moved source target) }

/-- The tree with a text added to the file that is held open. -/
def writeHeld (s : String) : FileSystem :=
  match fs.held with
  | none => fs
  | some location =>
    match fs.get? location with
    | some (.file content executable) => fs.put location (.file (content.append s) executable)
    | _ => fs

/-! ## What stands where after a change -/

variable {fs}

/-- What has no name is a directory. -/
theorem get?_of_isNameless {location : Location} (h : isNameless location) :
    fs.get? location = some .directory := by
  simp [get?, h]

/-- The root is a directory. -/
@[simp]
theorem get?_root : fs.get? [] = some .directory := rfl

/-- For a location with a name the table of entries says what stands there. -/
theorem get?_of_not_isNameless {location : Location} (h : ¬isNameless location) :
    fs.get? location = Assoc.get? location fs.entries := by
  simp [get?, h]

/-- A put changes what stands at one location, and nothing else. -/
theorem get?_put {top : Location} (entry : Entry) (location : Location) (h : ¬isNameless top) :
    (fs.put top entry).get? location = if top = location then some entry else fs.get? location := by
  by_cases hl : isNameless location
  · have hne : top ≠ location := fun e => h (e ▸ hl)
    rw [get?_of_isNameless hl, get?_of_isNameless hl, if_neg hne]
  · rw [get?_of_not_isNameless hl, get?_of_not_isNameless hl, put, Assoc.get?_set]
    simp [beq_iff_eq]

/-- After a removal nothing stands at or below the location, and everything else is as it was. -/
theorem get?_remove (top location : Location) :
    (fs.remove top).get? location =
      if ¬isNameless location ∧ within top location then none else fs.get? location := by
  by_cases hl : isNameless location
  · simp [get?_of_isNameless hl, hl]
  · rw [get?_of_not_isNameless hl, get?_of_not_isNameless hl, remove,
      Assoc.get?_filter (fun k => !within top k)]
    by_cases hw : within top location <;> simp [hl, hw]

/-- After a clearing nothing stands below the location, and everything else is as it was. -/
theorem get?_clear (top location : Location) :
    (fs.clear top).get? location =
      if ¬isNameless location ∧ location ≠ top ∧ within top location then none
      else fs.get? location := by
  by_cases hl : isNameless location
  · simp [get?_of_isNameless hl, hl]
  · rw [get?_of_not_isNameless hl, get?_of_not_isNameless hl, clear,
      Assoc.get?_filter (fun k => k == top || !within top k)]
    by_cases ht : location = top
    · simp [ht]
    · by_cases hw : within top location <;> simp [hl, ht, hw]

end FileSystem

end ProviderBindings
