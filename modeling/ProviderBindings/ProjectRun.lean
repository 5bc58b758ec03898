import ProviderBindings.ConfigFile
import ProviderBindings.Generation

/-!
# Generating for a project

Names given with the call win over those of the configuration. Providers and modules are requests of
their own, providers first; the first failure ends the run.
-/

namespace ProviderBindings

/-- What a run is asked to do, beside what the configuration says. -/
structure RunOptions where
  /-- The configuration file, unless the nearest one. -/
  configPath : Option Path := none
  /-- The language, unless that of the configuration. -/
  language : String := ""
  /-- The output directory, unless that of the configuration. -/
  output : String := ""
  /-- Names of providers and modules, unless those of the configuration. -/
  providers : List String := []
  modules : List String := []
  /-- Where staging directories are made, unless with other temporary files. -/
  stagingRoot : Option Path := none

namespace RunOptions

/-- Whether any names are given. -/
def givesNames (o : RunOptions) : Bool :=
  !(o.providers.isEmpty && o.modules.isEmpty)

/-- The names given of one kind. -/
def names (o : RunOptions) : TargetKind → List String
  | .provider => o.providers
  | .module => o.modules

end RunOptions

/-- The outcome of a run. -/
structure RunReport where
  language : Option Language := none
  outputDirectory : Option Path := none
  requests : List Request := []
  /-- What was generated, in the order of the requests. -/
  generated : List Path := []
  errors : List String := []

namespace RunReport

/-- Whether the run succeeded. -/
def succeeded (r : RunReport) : Bool :=
  r.errors.isEmpty

/-- The names that were requested of one kind. -/
def names (r : RunReport) (kind : TargetKind) : List String :=
  (r.requests.filter (·.kind == kind)).flatMap (·.names)

/-- The report as a document. -/
def document (r : RunReport) : Json :=
  .obj
    [("ok", .bool r.succeeded),
     ("language", .optional (r.language.map Language.name)),
     ("output_dir", .optional (r.outputDirectory.map Path.text)),
     ("providers", .strings (r.names .provider)),
     ("modules", .strings (r.names .module)),
     ("generated", .strings (r.generated.map Path.text)),
     ("errors", .strings r.errors)]

end RunReport

namespace RunOptions

variable (o : RunOptions)

/-- The project to start from, and the directory that relative output paths start from. Without a
configuration file a project with the usual settings will do when names are given. -/
def loadDefaults : HostAction (Project × Path) := do
  match ← ConfigFile.givenOrNearest o.configPath with
  | none =>
    if o.givesNames then pure ({}, ← Host.workingDirectory) else throw (.config .missing)
  | some path => do
    let project ← ConfigFile.load path
    pure (project, ← ConfigFile.projectRoot path)

/-- The requests for the names of a run, one for each kind that has any. -/
def requestsFor (project : Project) (language : Language) (output : Path) : List Request :=
  [TargetKind.provider, .module].filterMap fun kind =>
    let names := if o.givesNames then o.names kind else project.names kind
    if names.isEmpty then none else some { language, outputDirectory := output, names, kind }

/-- Carry out requests one after another, up to the first that fails. -/
def carryOut (report : RunReport) : List Request → Run RunReport
  | [] => pure report
  | request :: rest => do
    let getter : Getter := { layout := .ofKind request.kind, stagingRoot := o.stagingRoot }
    match ← Run.attempt (getter.get request) with
    | .ok paths => carryOut { report with generated := report.generated ++ paths } rest
    | .error (.generation e) =>
      Run.note (.generationFailed e.describe)
      pure { report with errors := report.errors ++ [e.describe] }
    | .error failure => throw failure

/-- Generate in a language from a project. -/
def runIn (project : Project) (root : Path) (language : Language) : Run RunReport := do
  let output := root.child (if o.output.isEmpty then project.output else o.output)
  let requests := o.requestsFor project language output
  let report : RunReport := { language, outputDirectory := output, requests }
  if requests.isEmpty then
    pure { report with errors := ["No providers or modules to generate."] }
  else o.carryOut report requests

/-- Carry out a run. -/
def run : Run RunReport := do
  match ← Run.attempt (Run.onHost o.loadDefaults) with
  | .error (.config fault) => pure { errors := [fault.message] }
  | .error failure => throw failure
  | .ok (project, root) =>
    let language :=
      if o.language.isEmpty then Except.ok project.language else Language.parse o.language
    match language with
    | .error e => pure { errors := [e.describe] }
    | .ok language => o.runIn project root language

end RunOptions

end ProviderBindings
