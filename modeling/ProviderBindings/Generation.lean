import ProviderBindings.Bindings
import ProviderBindings.Harvest
import ProviderBindings.Manifest
import ProviderBindings.Request
import ProviderBindings.Staging

/-!
# Generation

TypeScript is generated first, for all names of a request. For a TypeScript target it is saved straight
to the output directory. For any other language each name goes through a staging directory of its own:
the generated code is saved there, compiled, packaged, and the package harvested. The first failure
ends the request.
-/

namespace ProviderBindings

/-- What a name is stored under, which has to be different for all names of a request: its source, or
for compiled languages its import name. -/
def outputKey (language : Language) (source : String) : String :=
  if language.isPrimary then source else importName source

/-- Reject a name that cannot be resolved, and the second of two names with one key. -/
def checkCollisions (names : List String) (language : Language) (kind : TargetKind) :
    Except Failure Unit :=
  go [] names
where
  /-- Check names after the ones whose keys are given. -/
  go (earlier : List (String × String)) : List String → Except Failure Unit
    | [] => .ok ()
    | name :: rest => do
      let constraint ← Constraint.resolveStaged name
      let key := outputKey language (constraint.source kind)
      match Assoc.get? key earlier with
      | some other =>
        .error (.generation
          { cause := .resolution (.collision other kind key), target := name, stage := "resolve" })
      | none => go (earlier ++ [(key, name)]) rest

/-- Generates the code for the names of a request. -/
abbrev Generator := Layout → List String → TargetKind → Emission Unit

/-- How requests are carried out. -/
structure Getter where
  layout : Layout := .ofKind .provider
  /-- Where staging directories are made, unless with other temporary files. -/
  stagingRoot : Option Path := none
  generate : Generator := emitBindings

namespace Getter

/-- Do an action in a directory and fail if the tool fails. -/
def runAction (action : Action) (directory : Path) : Run Receipt := do
  let receipt ← Run.execute { action, workingDirectory := directory.text }
  if !receipt.succeeded then throw (.generation { cause := .toolFailed receipt })
  pure receipt

/-- The compiler's action for a manifest. -/
def compileAction (m : Manifest) : Action :=
  { id := "compile:" ++ m.package, adapter := CommandKind.compiler.command, forTarget := m.entryPoint }

/-- The packager's action for a source. -/
def packageAction (source : String) (language : Language) : Action :=
  { id := "package:" ++ packageName source, adapter := CommandKind.packager.command
    args := ["--target", language.name, "--code-only"], forTarget := source }

/-- Write the manifest into the staging directory and compile what is staged there. -/
def compileSchema (directory : Path) (m : Manifest) : Run Receipt := do
  Run.onHost <| Host.withFiles <|
    FileSystem.writeText (directory.child Manifest.fileName) (m.text ++ "\n")
  runAction (compileAction m) directory

/-- Save the finished files of an emitter, unless one of its files is still open. -/
def save (e : Emitter) (directory : Path) : Run (List Path) :=
  match e.current with
  | some current => throw (.emitter (.saveWhileOpen current))
  | none => Run.onHost do
    let root ← Host.resolve directory
    Host.withFiles (e.saveFiles root)

variable (g : Getter)

/-- The manifest for a source. -/
def manifest (source : String) : Manifest :=
  ⟨source, packageName source, g.layout.typesPath source⟩

/-- Compile, package and harvest what is staged in a directory for a name. -/
def buildIn (name source : String) (language : Language) (harvester : Harvester)
    (output directory : Path) : Run Path := do
  let _ ← inStage name "compile" (compileSchema directory (g.manifest source))
  let _ ← inStage name "package" (runAction (packageAction source language) directory)
  inStage name "harvest" (Run.onHost (harvester.harvest directory output (importName source)))

/-- Build the bindings of a single name; gives the path they were put at. -/
def buildOne (code : Emitter) (request : Request) (harvester : Harvester) (output : Path)
    (name : String) : Run Path := do
  let constraint : Constraint ← Constraint.resolveStaged name
  let source := constraint.source request.kind
  Run.note (.building request.kind source request.language.name)
  inStage name "stage" <| Staging.within "get" g.stagingRoot fun directory => do
    let _ ← save code directory
    g.buildIn name source request.language harvester output directory

/-- The code generated for a request. -/
def emission (request : Request) : Run Emitter :=
  let (result, code) := (g.generate g.layout request.names request.kind).run {}
  match result with
  | .ok _ => pure code
  | .error failure => throw failure

/-- Carry out a request; gives the files saved, or the directories harvested. -/
def get (request : Request) : Run (List Path) := do
  let output ← Run.onHost (Host.resolve request.outputDirectory)
  inStage none "output" (Run.onHost (Host.withFiles (FileSystem.makeDirectories output)))
  match Harvester.ofLanguage request.language with
  | .error e => throw (.generation e)
  | .ok harvester =>
    if request.names.isEmpty then
      Run.note (.nothingRequested request.kind)
      pure []
    else
      liftExcept (checkCollisions request.names request.language request.kind)
      let code ← inStage none "generate" (g.emission request)
      if request.language.isPrimary then
        let saved ← inStage none "save" (save code output)
        Run.note (.saved saved.length output.text)
        pure saved
      else
        let harvested ← request.names.mapM (g.buildOne code request harvester output)
        inStage none "harvest" (Run.onHost (harvester.finalize output))
        pure harvested
where
  /-- Fail where a check fails. -/
  liftExcept (check : Except Failure Unit) : Run Unit :=
    match check with
    | .ok _ => pure ()
    | .error failure => throw failure

end Getter

end ProviderBindings
