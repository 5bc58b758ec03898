import ProviderBindings.Tool.Registry

/-!
# Staging directories

Work on one target happens in a directory of its own, which is removed again however the work ends.
-/

namespace ProviderBindings.Staging

/-- Make a new directory for a piece of work, below `parent` or else in the directory for temporary
files; parents that are missing are made. -/
def acquire (label : String) (parent : Option Path) : HostAction Path := do
  if let some parent := parent then
    Host.withFiles (FileSystem.makeDirectories parent)
  let host ← get
  let path ← Host.withFiles
    (FileSystem.makeScratch label (host.staged + 1) (parent.getD host.temporary).text)
  modify fun host => { host with staged := host.staged + 1 }
  pure path

/-- Remove the directory of a piece of work, as far as it is still there. -/
def release (path : Path) : HostAction Unit :=
  Host.withFiles (FileSystem.removeTreeQuietly path)

/-- Do a piece of work in a new directory, which is removed however the work ends. -/
def within (label : String) (parent : Option Path) (work : Path → Run α) : Run α := do
  let path ← Run.onHost (acquire label parent)
  let result ← Run.attempt (work path)
  Run.onHost (release path)
  match result with
  | .ok a => pure a
  | .error failure => throw failure

end ProviderBindings.Staging
