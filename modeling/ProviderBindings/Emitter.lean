import ProviderBindings.Assoc
import ProviderBindings.Failure
import ProviderBindings.FileSystem.Actions

/-!
# Code emitters

An emitter collects generated files in memory, line by line, and writes nothing until it is saved; the
same collection can be saved any number of times into different directories. At most one file is open
at a time, and its blocks are indented by their depth.
-/

namespace ProviderBindings

/-- A collection of generated files, one of which may still be open. -/
structure Emitter where
  /-- The width of one level of indentation. -/
  indentation : Int := 2
  /-- The finished files with their texts, in the order they were first finished. -/
  files : List (String × String) := []
  /-- The file being written. -/
  current : Option String := none
  /-- The lines of the open file. -/
  lines : List String := []
  /-- How many blocks of the open file are open. -/
  depth : Nat := 0
  deriving DecidableEq, Repr

namespace Emitter

variable (e : Emitter)

/-- Start a file. -/
def openFile (path : String) : Except EmitterFault Emitter :=
  match e.current with
  | some current => .error (.stillOpen path current)
  | none => .ok { e with current := some path, lines := [], depth := 0 }

/-- Put a whole file into the collection, in place of an earlier one of that path. -/
def addFile (path text : String) : Emitter :=
  { e with files := Assoc.set path text e.files }

/-- Finish the open file. -/
def closeFile (path : String) : Except EmitterFault Emitter :=
  if e.current != some path then .error (.notOpen path e.current)
  else if e.depth != 0 then .error (.openBlocks path e.depth)
  else .ok { e.addFile path (Text.unlines e.lines) with current := none, lines := [] }

/-- A line as it is written at a depth of nesting: indented, unless it is empty. -/
def indented (indentation : Int) (depth : Nat) (text : String) : String :=
  if text.isEmpty then text
  else String.ofList (List.replicate (indentation * depth).toNat ' ') ++ text

/-- Write a line. -/
def line (text : String) : Except EmitterFault Emitter :=
  match e.current with
  | none => .error .noOpenFile
  | some _ => .ok { e with lines := e.lines ++ [indented e.indentation e.depth text] }

/-- Write the head of a block, and indent what follows. -/
def openBlock (text : String) : Except EmitterFault Emitter :=
  (e.line (text ++ " \x7b")).map fun e => { e with depth := e.depth + 1 }

/-- The text that closes a block unless another is given. -/
def blockEnd : String := "\x7d"

/-- End the innermost block with a closing text. -/
def closeBlock (text : String := blockEnd) : Except EmitterFault Emitter :=
  if e.depth = 0 then .error .noOpenBlock
  else { e with depth := e.depth - 1 }.line text

/-- Write one finished file below a directory, with the directories it lacks. -/
def saveFile (root : Path) (file : String × String) : FileAction Path := do
  let target := root.child file.1
  FileSystem.makeDirectories target.parent
  FileSystem.writeText target file.2
  pure target

/-- Write every finished file below a directory; gives the paths written, in order. -/
def saveFiles (root : Path) : FileAction (List Path) :=
  e.files.mapM (saveFile root)

end Emitter

end ProviderBindings
