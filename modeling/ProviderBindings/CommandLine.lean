import ProviderBindings.CommandLine.Options
import ProviderBindings.ConfigCheck
import ProviderBindings.Logging
import ProviderBindings.ProjectRun
import ProviderBindings.Text.Style

/-!
# The command line

The commands of the program: `get` generates bindings, `config check` checks the configuration, `tools`
tells where the toolchain is, and `languages` lists the target languages. A command is given as its
arguments and comes out as an exit code with what it prints.
-/

namespace ProviderBindings

/-- How a command ends. -/
structure CommandResult where
  exitCode : Nat := 0
  /-- What it prints. -/
  output : String := ""
  /-- What it prints about its progress and about errors. -/
  messages : String := ""
  /-- The failure that broke it off, if one did. -/
  failure : Option Failure := none

namespace CommandLine

/-- The name and version of the program. -/
def versionLine : String := "bindgen, version 0.1.0\n"

/-- A short reminder of how the program is called. -/
def usage : String :=
  "Usage: bindgen [--verbose] [--quiet] [--debug] [--config PATH] COMMAND [ARGS]...\n\n" ++
  "Commands:\n  config check\n  get\n  languages\n  tools\n"

/-- The option that asks for help. -/
def helpOption : OptionSpec := { id := "help", long := ["--help"] }

/-- The option for output as a document. -/
def jsonOption : OptionSpec := { id := "json", long := ["--json-output", "--json"] }

/-- The options before the command. -/
def commonOptions : List OptionSpec :=
  [{ id := "version", long := ["--version"] },
   { id := "verbose", long := ["--verbose"], short := some 'v' },
   { id := "quiet", long := ["--quiet"], short := some 'q' },
   { id := "debug", long := ["--debug"] },
   { id := "config", long := ["--config"], short := some 'c', takesValue := true },
   helpOption]

/-- The options of `get`. -/
def getOptions : List OptionSpec :=
  [{ id := "language", long := ["--language"], short := some 'l', takesValue := true },
   { id := "output", long := ["--output"], short := some 'o', takesValue := true },
   { id := "provider", long := ["--provider"], takesValue := true },
   { id := "module", long := ["--module"], takesValue := true },
   jsonOption, helpOption]

/-- The commands of the program. -/
inductive CommandName where
  | get
  | config
  | tools
  | languages
  deriving DecidableEq, Repr

/-- The command with a name. -/
def CommandName.ofName? (name : String) : Option CommandName :=
  [("get", get), ("config", config), ("tools", tools), ("languages", languages)].lookup name

/-- A command that is not called the way it wants to be. -/
def misuse : CommandResult :=
  { exitCode := 2, messages := usage }

/-- Lines of output. -/
def lines (ls : List String) : String :=
  String.join (ls.map (· ++ "\n"))

/-- Items below a heading. -/
def bullets (items : List String) : List String :=
  items.map ("   • " ++ ·)

/-- A command that prints lines, without terminal styles, and then ends well or badly. A line with a half of
a surrogate pair cannot be printed, and that breaks the command off. -/
def ending (well : Bool) (printed : List String) : CommandResult :=
  let output (ls : List String) : String := lines (ls.map Text.unstyled)
  if printed.any Text.hasHalf then
    { exitCode := 1, output := output (printed.takeWhile (!Text.hasHalf ·)), failure := some .unencodable }
  else { exitCode := if well then 0 else 1, output := output printed }

/-- A command that prints a document and then ends well or badly. -/
def endingWith (well : Bool) (document : Json) : CommandResult :=
  { exitCode := if well then 0 else 1, output := document.render ++ "\n" }

/-- A word with its first letter made a capital. -/
def capitalizedWord (s : String) : String :=
  String.ofList (capitalized s.toList)

/-- What `get` prints. -/
def showRun (quiet asJson : Bool) (r : RunReport) : CommandResult :=
  if asJson then endingWith r.succeeded r.document
  else if !r.succeeded then
    ending false ("❌ Generation failed:" :: bullets r.errors)
  else if quiet then {}
  else
    let language := (r.language.map Language.name).getD ""
    let output := (r.outputDirectory.map Path.text).getD ""
    let requested := r.requests.map fun request =>
      "   " ++ capitalizedWord request.kind.label ++ "s: " ++ String.intercalate ", " request.names
    ending true (("✅ Generated " ++ language ++ " bindings") :: ("   Output: " ++ output) :: requested)

/-- What `config check` prints. -/
def showCheck (asJson : Bool) (r : ConfigReport) : CommandResult :=
  if asJson then endingWith r.isValid r.document
  else
    let verdict := match r.isValid, r.project with
      | true, some project =>
        ["✅ Configuration is valid", "   Language: " ++ project.language.name,
         "   Providers: " ++ toString project.providers.length,
         "   Modules: " ++ toString project.modules.length]
      | _, _ => "❌ Configuration errors:" :: bullets r.errors
    let warnings :=
      if r.warnings.isEmpty then [] else "" :: "⚠️  Warnings:" :: bullets r.warnings
    ending r.isValid (verdict ++ warnings)

/-- The executable of a tool, as far as it has one. -/
def locationOf (host : Host) : Tool → String
  | .command t => t.executableOn host
  | .standIn _ => ""

/-- The state of a tool as a document. -/
def statusDocument (s : Registry.Status) : Json :=
  .obj [("name", .str s.name), ("available", .bool s.available), ("type", .str s.kindName)]

/-- What `tools` prints. -/
def showTools (asJson : Bool) (session : Session) : CommandResult :=
  let status := session.registry.status session.host
  if asJson then
    endingWith true (Json.obj (status.map fun s => (s.name, statusDocument s)))
  else
    let line (s : Registry.Status) : String :=
      if s.available then
        let location := ((session.registry.find? s.name).map (locationOf session.host)).getD ""
        "   ✓ " ++ Text.padRight 12 s.name ++ " " ++ location
      else "   ✗ " ++ Text.padRight 12 s.name ++ " not found"
    ending true ("🔧 Toolchain:" :: status.map line)

/-- What `languages` prints. -/
def showLanguages : CommandResult :=
  ending true <| Language.all.map fun l =>
    let label :=
      if !Language.producible.contains l then "not supported yet"
      else if l.isPrimary then "direct"
      else "via jsii-pacmak"
    "  " ++ Text.padRight 12 l.name ++ " " ++ label

/-- What is said before the command. -/
structure CommonSettings where
  quiet : Bool
  /-- The configuration file, unless the nearest one. -/
  configPath : Option Path

/-- Run a command that takes no other arguments than the given options. -/
def withOptions (specs : List OptionSpec) (args : List String)
    (work : Parsed → Run CommandResult) : Run CommandResult :=
  match parseArguments specs true args with
  | none => pure misuse
  | some parsed =>
    if parsed.has "help" then pure { output := usage }
    else if !parsed.rest.isEmpty then pure misuse
    else work parsed

/-- Run `get`. -/
def runGet (common : CommonSettings) (args : List String) : Run CommandResult :=
  withOptions getOptions args fun parsed => do
    let options : RunOptions :=
      { configPath := common.configPath
        language := (parsed.value? "language").getD ""
        output := (parsed.value? "output").getD ""
        providers := parsed.values "provider"
        modules := parsed.values "module" }
    pure (showRun common.quiet (parsed.has "json") (← options.run))

/-- Run `config`, which takes a command of its own. -/
def runConfig (common : CommonSettings) (args : List String) : Run CommandResult :=
  match parseArguments [helpOption] false args with
  | none => pure misuse
  | some parsed =>
    if parsed.has "help" then pure { output := usage }
    else
      match parsed.rest with
      | "check" :: args =>
        withOptions [jsonOption, helpOption] args fun parsed => do
          let report ← Run.onHost (checkConfig common.configPath)
          pure (showCheck (parsed.has "json") report)
      | _ => pure misuse

/-- Run a command. -/
def runCommand (common : CommonSettings) (args : List String) : CommandName → Run CommandResult
  | .get => runGet common args
  | .config => runConfig common args
  | .tools =>
    withOptions [jsonOption, helpOption] args fun parsed => do
      pure (showTools (parsed.has "json") (← get))
  | .languages => withOptions [helpOption] args fun _ => pure showLanguages

/-- A command that a failure broke off. -/
def brokenOff (failure : Failure) : CommandResult :=
  { exitCode := 1, failure }

/-- Set logging up and do some work, with what its log records show on the console. -/
def logged (settings : LogSettings) (work : Run CommandResult) : Run CommandResult := do
  match ← Run.attempt (Run.onHost (LogSetup.install settings)) with
  | .error failure => pure (brokenOff failure)
  | .ok _ =>
    let before := (← get).host.log.length
    let result ← match ← Run.attempt work with
      | .ok result => pure result
      | .error failure => pure (brokenOff failure)
    let host := (← get).host
    let messages := host.logging.console host.clock (host.log.drop before)
    pure { result with messages := messages ++ result.messages }

/-- The answer to common options alone: to the first one for the version or for help, if one was given,
and to a configuration path that is none. -/
def answer? (parsed : Parsed) : Option CommandResult :=
  match (parsed.options.map (·.1)).find? fun id => id == "version" || id == "help" with
  | some id => some { output := if id == "version" then versionLine else usage }
  | none => ((parsed.value? "config").bind PathFault.ofText?).map (brokenOff <| Host.failureOfPath ·)

/-- The answer to a command that does not exist. Options that stand where the command should be are
looked at once more. -/
def unknownCommand (args : List String) : CommandResult :=
  ((parseArguments commonOptions false args).bind answer?).getD misuse

/-- Run the program with arguments. -/
def run (args : List String) : Run CommandResult :=
  match parseArguments commonOptions false args with
  | none => pure misuse
  | some parsed =>
    match answer? parsed, parsed.rest with
    | some result, _ => pure result
    | none, [] => pure misuse
    | none, name :: args =>
      match CommandName.ofName? name with
      | none => pure (unknownCommand parsed.rest)
      | some command => do
        let flags : LogFlags :=
          { debug := parsed.has "debug", verbose := parsed.has "verbose", quiet := parsed.has "quiet" }
        let common : CommonSettings :=
          { quiet := flags.quiet
            configPath := ((parsed.value? "config").filter (!·.isEmpty)).map Path.ofString }
        let environment := (← get).host.environment
        logged (.ofFlags flags environment) (runCommand common args command)

end CommandLine

end ProviderBindings
