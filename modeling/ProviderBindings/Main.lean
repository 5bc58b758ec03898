import ProviderBindings.CommandLine
import Std.Time.Format

/-!
# The program

Runs a command on the computer it is started on. The library works on a file tree that is a value, so
the part of the real tree that a command looks at is read first, and what the command adds to it is
written back. Which part that is shows when the command is run: as long as it changes places that have
not been looked at, they are looked at and the command is run again from the start, on a value. External
tools are not started from here.
-/

namespace ProviderBindings.Program

/-- The environment variables that commands look at. -/
def settingNames : List String :=
  ["PATH", "BINDGEN_JSII", "BINDGEN_JSII_PACMAK", "BINDGEN_LOG_LEVEL", "BINDGEN_LOG_FILE",
   "BINDGEN_LOG_FILE_LEVEL"]

/-- The values of the variables that are set. -/
def readEnvironment : IO (List (String × String)) :=
  settingNames.filterMapM fun name => do
    pure ((← IO.getEnv name).map fun value => (name, value))

/-- What is known about places of the real tree: what stands there, or that nothing does. -/
abbrev Knowledge := List (Location × Option Entry)

/-- The known part of the tree, seen from a working directory. -/
def treeOf (known : Knowledge) (workingDirectory : Location) : FileSystem :=
  { entries := known.filterMap fun (location, entry) => entry.map fun entry => (location, entry)
    workingDirectory }

/-- What stands at a location. Only directories and regular files count, and every file counts as one
that may be run. -/
def readEntry (location : Location) : IO (Option Entry) := do
  let path := (← IO.currentDir) / (Path.fromRoot location).text
  match ← path.metadata.toBaseIO with
  | .error _ => pure none
  | .ok info =>
    match info.type with
    | .dir => pure (some .directory)
    | .file => pure (some (.file (.ofBytes (← IO.FS.readBinFile path).toList) true))
    | _ => pure none

/-- A location and the locations on the way to it. -/
def wayTo (location : Location) : List Location :=
  (List.range location.length).map fun n => location.take (n + 1)

/-- Look at locations and at those on the way to them. -/
def explore (known : Knowledge) (locations : List Location) : IO Knowledge :=
  (locations.flatMap wayTo).foldlM (fun known location => do
    if (Assoc.get? location known).isSome then pure known
    else pure (known ++ [(location, ← readEntry location)])) known

/-- The paths that a command looks at whatever it does: where the tools may be, the configuration file
that is named, and those on the way to the root. -/
def lookedAt (workingDirectory : Location) (args : List String) (environment : List (String × String)) :
    List Location :=
  let fs : FileSystem := { workingDirectory }
  let value (name : String) : String := (Assoc.get? name environment).getD ""
  let tools := [CommandKind.compiler, .packager]
  let onSearchPath := (Text.split ':' (value "PATH")).flatMap fun directory =>
    tools.map fun kind => Path.joinText directory kind.command
  let named := tools.map fun kind => value kind.locationVariable
  let config := ((CommandLine.parseArguments CommandLine.commonOptions false args).bind
    (·.value? "config")).toList
  let nearest := ([] :: wayTo workingDirectory).map (· ++ [ConfigFile.fileName])
  nearest ++ (onSearchPath ++ named ++ config).map fun path => fs.spelled (.ofString path)

/-- The places where a tree differs from an earlier one, with what stands there now. -/
def additions (earlier later : FileSystem) : List (Location × Entry) :=
  later.entries.filter fun (location, entry) => earlier.get? location != some entry

/-- Run a command on the known part of the tree, and again as long as it changes unknown places. -/
def settle (run : FileSystem → CommandResult × FileSystem) (workingDirectory : Location) :
    Nat → Knowledge → IO (CommandResult × List (Location × Entry))
  | rounds, known => do
    let tree := treeOf known workingDirectory
    let (result, after) := run tree
    let changes := additions tree after
    let unknown := changes.filter fun (location, _) => (Assoc.get? location known).isNone
    match rounds, unknown with
    | rounds + 1, _ :: _ => settle run workingDirectory rounds (← explore known (unknown.map (·.1)))
    | _, _ => pure (result, changes)

/-- Put an entry into the real tree. -/
def writeEntry (location : Location) (entry : Entry) : IO Unit := do
  let path := (Path.fromRoot location).text
  match entry with
  | .directory => IO.FS.createDirAll path
  | .file (.text s) _ => IO.FS.writeFile path s
  | .file (.bytes values) _ => IO.FS.writeBinFile path ⟨values.toArray⟩
  | .link _ => pure ()

/-- The present time. -/
def readClock : IO Clock := do
  let t ← Std.Time.PlainDateTime.now
  pure (Clock.standingAt t.year.toInt.toNat t.month.val.toNat t.day.val.toNat t.hour.val.toNat
    t.minute.val.toNat t.second.val.toNat (t.nanosecond.val.toNat / 1000000))

/-- How often a command is run at most until no place is unknown any more. -/
def maxRounds : Nat := 8

/-- Run the command that the arguments give; gives its exit code. -/
def run (args : List String) : IO UInt32 := do
  let environment ← readEnvironment
  let clock ← readClock
  let workingDirectory := (Path.ofString (← IO.currentDir).toString).names
  let temporary := Path.ofString ((← IO.getEnv "TMPDIR").getD "/tmp")
  let command (files : FileSystem) : CommandResult × FileSystem :=
    let session : Session :=
      { host := { files, environment, temporary, clock }, registry := .standard }
    let (result, session) := (CommandLine.run args).run session
    match result with
    | .ok result => (result, session.host.files)
    | .error failure => ({ exitCode := 1, failure }, session.host.files)
  let known ← explore [] (temporary.names :: workingDirectory ::
    lookedAt workingDirectory args environment)
  let (result, changes) ← settle command workingDirectory maxRounds known
  changes.forM fun (location, entry) => writeEntry location entry
  IO.eprint result.messages
  IO.print result.output
  if let some failure := result.failure then IO.eprintln failure.text
  pure (UInt32.ofNat result.exitCode)

end ProviderBindings.Program

/-- The command line. -/
def main (args : List String) : IO UInt32 :=
  ProviderBindings.Program.run args
