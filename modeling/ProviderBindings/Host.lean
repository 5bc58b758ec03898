import ProviderBindings.Failure
import ProviderBindings.FileSystem.Actions
import ProviderBindings.LogSetup

/-!
# Hosts

A host is what a run can see and change: the file tree, the environment, the directory for temporary
files, the log and its handlers, and the history of the tools that were started, each with the tree as it was at the
start. Starting a process is a function of the host, so that every behaviour of a process is a value.
-/

namespace ProviderBindings

/-- One thing to do for a tool. -/
structure Action where
  /-- What the action is called, such as `compile:aws`. -/
  id : String
  /-- The tool that does it. -/
  adapter : String
  /-- Arguments of the tool. -/
  args : List String := []
  /-- Further parameters. -/
  params : List (String × Data) := []
  /-- The provider or module it is done for. -/
  forTarget : Option String := none

/-- Everything a tool needs to know to act. -/
structure Context where
  action : Action
  /-- The directory to work in, as a path text. -/
  workingDirectory : String := "."
  /-- Variables to set beside the environment of the host. -/
  environment : List (String × String) := []
  /-- After how many seconds to give up. -/
  timeout : Int := 600

/-- A command line with what surrounds it. -/
structure Command where
  /-- The executable and its arguments. -/
  argv : List String
  /-- The directory it is started in, as a path text. -/
  directory : String
  /-- Its whole environment. -/
  environment : List (String × String)
  timeout : Int

/-- How the start of a process comes out. -/
inductive ProcessEnd where
  | exited (code : Int) (stdout stderr : String)
  | timedOut
  /-- The process could not be started or watched. -/
  | broken (failure : Failure)

/-- A tool that was started. -/
inductive Invocation where
  /-- A stand-in acted in a context. -/
  | standIn (adapter : String) (context : Context)
  | process (command : Command)

/-- The start of a tool, with the file tree it found. -/
structure ToolStart where
  invocation : Invocation
  files : FileSystem

/-- Whether the tool started was a process. -/
def ToolStart.isProcess (start : ToolStart) : Bool :=
  match start.invocation with
  | .process _ => true
  | .standIn _ _ => false

/-- How processes behave: what becomes of the process that is started after `n` others. -/
abbrev ProcessRunner := Nat → Command → FileSystem → ProcessEnd × FileSystem

/-- What a run can see and change. -/
structure Host where
  files : FileSystem
  /-- The environment variables. -/
  environment : List (String × String) := []
  /-- The directory for temporary files. -/
  temporary : Path
  /-- How many staging directories have been made. -/
  staged : Nat := 0
  /-- The time that it is. -/
  clock : Clock := .standingAt 1970 1 1 0 0 0 0
  /-- The log, oldest record first. -/
  log : List LogRecord := []
  /-- Where the log goes. Before logging is set up there are no handlers, and the threshold is that of
  warnings. -/
  logging : LogSetup := ⟨[], LogLevel.warning.number⟩
  /-- The tools that were started, oldest first. -/
  history : List ToolStart := []
  /-- What becomes of processes. -/
  processes : ProcessRunner := fun _ _ fs =>
    (.broken (.system (.coded Errno.notFound.code Errno.notFound.reason none)), fs)

/-- A computation on a host that may fail. What it did before it failed stays done. -/
abbrev HostAction := ExceptT Failure (StateM Host)

namespace Host

/-- The failure that it is to use a text that is no path. -/
def failureOfPath : PathFault → Failure
  | .half => .unencodable
  | .zeroByte => .zeroByte

/-- The failure that a file operation's failure is. -/
def failureOf : FileFailure → Failure
  | .system e => .system e
  | .unnameable fault => failureOfPath fault

/-- Do something with the files of the host. -/
def withFiles (work : FileAction α) : HostAction α :=
  fun host =>
    match work.run host.files with
    | (.ok a, files) => (.ok a, { host with files })
    | (.error e, files) => (.error (failureOf e), { host with files })

/-- The outcome of a look at the files. -/
def look (view : FileSystem → Except SystemError α) : HostAction α :=
  withFiles (FileSystem.look view)

/-- The working directory, unless it has been removed. -/
def workingDirectory : HostAction Path := do
  let location := (← get).files.workingDirectory
  if FileSystem.isGone location then throw (.system (.plain .notFound))
  else pure (.fromRoot location)

/-- The absolute path that a path stands for, free of links and double dots. -/
def resolve (p : Path) : HostAction Path := do
  if let some fault := FileSystem.nameFault? p then throw (failureOfPath fault)
  if !p.isAbsolute then
    let _ ← workingDirectory
  let fs := (← get).files
  let path := fs.resolve p
  if fs.isEndless path then throw (.linkLoop path.text) else pure path

/-- Leave a record in the log, and in the log file if there is one. -/
def leave (r : LogRecord) : HostAction Unit :=
  modify fun host =>
    { host with
      log := host.log ++ [r]
      files := host.files.writeHeld (host.logging.fileText host.clock r) }

/-- Leave a notice in the log. -/
def note (n : Notice) : HostAction Unit :=
  leave n.record

/-- Note that a tool starts. -/
def noteStart (invocation : Invocation) : HostAction Unit :=
  modify fun host => { host with history := host.history ++ [⟨invocation, host.files⟩] }

/-- The value of an environment variable that is set and not empty. -/
def setting? (host : Host) (name : String) : Option String :=
  (Assoc.get? name host.environment).filter fun value => !value.isEmpty

/-- Start a process and wait for it. -/
def runProcess (command : Command) : HostAction ProcessEnd := do
  let number := ((← get).history.filter ToolStart.isProcess).length
  noteStart (.process command)
  let host ← get
  let (result, files) := host.processes number command host.files
  set { host with files }
  pure result

end Host

end ProviderBindings
