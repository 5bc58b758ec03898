import ProviderBindings.Host

/-!
# Harvesting

The packager leaves the code of each language at a place of its own inside the staging directory. A
harvester knows that place and moves the code from there into the output directory, in place of
whatever stood there before.
-/

namespace ProviderBindings

/-- How packaged code is collected. -/
inductive Harvester where
  /-- TypeScript is saved directly, so that nothing is ever collected. -/
  | direct
  /-- A package directory is moved, and the output directory made importable. -/
  | package
  deriving DecidableEq, Repr

namespace Harvester

/-- The harvester for a language, if the language can be produced. -/
def ofLanguage? : Language → Option Harvester
  | .typescript => some .direct
  | .python => some .package
  | _ => none

/-- The harvester for a language, or the error that there is none. -/
def ofLanguage (language : Language) : Except GenerationError Harvester :=
  match ofLanguage? language with
  | some h => .ok h
  | none => .error { cause := .unsupportedLanguage language.name }

/-- The language that a harvester is for. -/
def language : Harvester → Language
  | direct => .typescript
  | package => .python

/-- How a harvester is shown. -/
def display (h : Harvester) : String :=
  let kindName := match h with
    | direct => "TypeScriptHarvester"
    | package => "PythonHarvester"
  "<" ++ kindName ++ " language=" ++ Text.quoted h.language.name ++ ">"

/-- Where the packager leaves the code for a name. -/
def sourcePath (workDirectory : Path) (name : String) : Path :=
  (((workDirectory.child "dist").child "python").child "src").child name

/-- The file that makes a directory importable. -/
def markerName : String := "__init__.py"

/-- Remove what stands at a path; a link is removed and not followed. -/
def clearPlace (target : Path) : FileAction Unit := do
  if ← FileSystem.look (·.pathExists target) then
    let isDirectory ← FileSystem.look (·.isDirectory target)
    let isLink ← FileSystem.look (·.isLink target)
    if isDirectory && !isLink then FileSystem.removeTree target else FileSystem.unlink target

/-- Put what stands at `source` in the place of what stands at `target`. -/
def replacePlace (source target : Path) : FileAction Unit := do
  clearPlace target
  FileSystem.makeDirectories target.parent
  FileSystem.move source target

/-- Do something with files, and fail for the given reason when that fails. -/
def orFault (fault : SystemError → HarvestFault) (work : FileAction Unit) : HostAction Unit :=
  tryCatch (Host.withFiles work) fun
    | .system e => throw (.generation { cause := .harvest (fault e) })
    | failure => throw failure

/-- Move the packaged code for a name into the output directory; gives its new path. -/
def harvest (workDirectory output : Path) (name : String) : Harvester → HostAction Path
  | direct => throw (.generation { cause := .harvest .primaryLanguage })
  | package => do
    let source := sourcePath workDirectory name
    let target := output.child name
    if !(← Host.look (·.pathExists source)) then
      throw (.generation { cause := .harvest (.outputMissing source.text) })
    orFault (.cannotMove source.text target.text) (replacePlace source target)
    Host.note (.harvested name target.text)
    pure target

/-- Finish the output directory after every name has been collected. -/
def finalize (output : Path) : Harvester → HostAction Unit
  | direct => pure ()
  | package =>
    let marker := output.child markerName
    orFault (.cannotMark marker.text) (FileSystem.writeText marker "")

end Harvester

end ProviderBindings
