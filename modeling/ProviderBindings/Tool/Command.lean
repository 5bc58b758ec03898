import ProviderBindings.Host

/-!
# Command-line tools

The two external tools that bindings are made with, the schema compiler and the packager. Each is an
executable that is looked up in the environment, has to find certain files before it may start, and is
judged by its exit code alone.
-/

namespace ProviderBindings

/-- The external tools. -/
inductive CommandKind where
  /-- The schema compiler. -/
  | compiler
  /-- The packager. -/
  | packager
  deriving DecidableEq, Repr

namespace CommandKind

/-- The command that runs a tool, which is also the tool's name. -/
def command : CommandKind → String
  | compiler => "jsii"
  | packager => "jsii-pacmak"

/-- The environment variable that says where a tool is. -/
def locationVariable : CommandKind → String
  | compiler => "BINDGEN_JSII"
  | packager => "BINDGEN_JSII_PACMAK"

end CommandKind

/-- An external tool, perhaps with a given executable. -/
structure CommandTool where
  kind : CommandKind
  /-- The executable to use, whatever the environment says. -/
  executable : Option String := none
  deriving DecidableEq, Repr

namespace CommandTool

/-- The directories that commands are looked up in when the environment names none. -/
def standardSearchPath : String := "/bin:/usr/bin"

/-- The runnable file that a command stands for: itself if it holds a slash, else the first of that
name in the directories of the search path. -/
def search (host : Host) (command : String) : Option String :=
  if command.contains '/' then
    if host.files.showsExecutable command then some command else none
  else
    let path := (Assoc.get? "PATH" host.environment).getD standardSearchPath
    if path.isEmpty then none
    else ((Text.split ':' path).map (Path.joinText · command)).find? host.files.showsExecutable

variable (t : CommandTool)

/-- The executable that the tool would start: the given one, else the one the environment variable
names, else the one found on the search path, else the bare command. -/
def executableOn (host : Host) : String :=
  match t.executable.filter (!·.isEmpty) with
  | some executable => executable
  | none =>
    match host.setting? t.kind.locationVariable with
    | some executable => executable
    | none => (search host t.kind.command).getD t.kind.command

/-- Whether the tool's executable can be found: a file of that path, or a command that is found. -/
def isAvailable (host : Host) : Except SystemError Bool := do
  let executable := t.executableOn host
  if ← host.files.isFile (Path.ofString executable) then pure true
  else pure (search host executable).isSome

/-- What keeps the tool from acting in a context, if anything does: it needs its working directory;
the compiler also a manifest in it, the packager a target argument and a compiled assembly. -/
def objection? (context : Context) (host : Host) : Except SystemError (Option String) := do
  let directory := Path.ofString context.workingDirectory
  if !(← host.files.isDirectory directory) then
    pure (some ("Working directory does not exist: " ++ context.workingDirectory))
  else
    match t.kind with
    | .compiler =>
      if ← host.files.isFile (directory.child "package.json") then pure none
      else pure (some ("No package.json in " ++ context.workingDirectory))
    | .packager =>
      if !context.action.args.contains "--target" then
        pure (some "Missing required arg: '--target'")
      else if ← host.files.isFile (directory.child ".jsii") then pure none
      else pure (some ("No compiled .jsii assembly in " ++ context.workingDirectory))

/-- What a process that ran to its end is recorded as: success on exit code zero; otherwise a failure
whose error is what the process printed as errors, or else printed, or else its exit code. -/
def receiptOfExit (actionId commandLine : String) (code : Int) (stdout stderr : String) : Receipt :=
  let output := Text.strip stdout
  let errors := Text.strip stderr
  if code = 0 then
    { adapter := t.kind.command, actionId, output, command := commandLine, returnCode := some 0
      metadata := if errors.isEmpty then [] else [("stderr", .str errors)] }
  else
    let error :=
      if !errors.isEmpty then errors
      else if !output.isEmpty then output
      else s!"Command exited with code {code}"
    { Receipt.failure t.kind.command actionId error with
      command := commandLine, returnCode := some code, metadata := [("stdout", .str output)] }

/-- Start the tool and wait for it. A process that cannot be started or takes too long makes a failed
receipt; an error of any other kind breaks out. -/
def execute (context : Context) : HostAction Receipt := do
  let host ← get
  let executable := t.executableOn host
  let argv := executable :: context.action.args
  let commandLine := String.intercalate " " argv
  let failed (error : String) : Receipt :=
    { Receipt.failure t.kind.command context.action.id error with command := commandLine }
  let result ← Host.runProcess
    { argv, directory := context.workingDirectory, timeout := context.timeout
      environment := Assoc.update host.environment context.environment }
  match result with
  | .exited code stdout stderr =>
    pure (t.receiptOfExit context.action.id commandLine code stdout stderr)
  | .timedOut => pure (failed ("Command timed out after " ++ toString context.timeout ++ "s"))
  | .broken (.system e) =>
    if e.isNotFound then pure (failed ("Executable not found: " ++ executable))
    else pure (failed ("Command execution error: " ++ e.message))
  | .broken failure => throw failure

end CommandTool

end ProviderBindings
