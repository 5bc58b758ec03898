import ProviderBindings.ConfigFile
import ProviderBindings.Generation

/-!
# Checking a configuration

A check reports everything that generation would stumble over, without generating anything: names that
cannot be resolved or collide, and a language that cannot be produced.
-/

namespace ProviderBindings

/-- The outcome of checking a configuration. -/
structure ConfigReport where
  /-- The configuration file, if there is one. -/
  path : Option Path := none
  /-- The project, if it could be read. -/
  project : Option Project := none
  errors : List String := []
  warnings : List String := []

namespace ConfigReport

/-- Whether nothing is wrong. -/
def isValid (r : ConfigReport) : Bool :=
  r.errors.isEmpty

/-- The report as a document. -/
def document (r : ConfigReport) : Json :=
  .obj
    [("valid", .bool r.isValid),
     ("config_path", .optional (r.path.map Path.text)),
     ("errors", .strings r.errors),
     ("warnings", .strings r.warnings),
     ("language", .optional (r.project.map (·.language.name))),
     ("provider_count", .int ((r.project.map (·.providers.length)).getD 0)),
     ("module_count", .int ((r.project.map (·.modules.length)).getD 0))]

/-- The names that occur more than once, sorted. -/
def duplicates (names : List String) : List String :=
  (names.filter fun name => names.count name > 1).eraseDups.mergeSort fun a b => decide (a ≤ b)

/-- What is wrong with the names of one kind. -/
def nameErrors (names : List String) (language : Language) (kind : TargetKind) : List String :=
  let repeated := duplicates names
  let malformed := names.filterMap fun name =>
    match Constraint.resolve name with
    | .ok _ => none
    | .error fault => some (kind.label ++ " " ++ fault.message)
  let colliding :=
    if repeated.isEmpty && malformed.isEmpty then
      match checkCollisions names language kind with
      | .error (.generation e) => [kind.label ++ " " ++ e.target.getD "None" ++ " " ++ e.message]
      | _ => []
    else []
  (if repeated.isEmpty then []
    else ["Duplicate " ++ kind.label ++ "s: " ++ String.intercalate ", " repeated]) ++
    malformed ++ colliding

/-- The report on a project that could be read. -/
def ofProject (path : Path) (project : Project) : ConfigReport :=
  let errors := [TargetKind.provider, .module].flatMap fun kind =>
    nameErrors (project.names kind) project.language kind
  let unsupported := match Harvester.ofLanguage project.language with
    | .ok _ => []
    | .error e => [e.message]
  { path, project, errors := errors ++ unsupported
    warnings :=
      if project.providers.isEmpty && project.modules.isEmpty then
        ["No providers or modules declared. Nothing will be generated."]
      else [] }

end ConfigReport

/-- Check a configuration file, the nearest one unless a path is given. -/
def checkConfig (path : Option Path) : HostAction ConfigReport := do
  match ← ConfigFile.givenOrNearest path with
  | none => pure { errors := ["No bindgen.yml found."] }
  | some path =>
    tryCatch
      (do pure (ConfigReport.ofProject path (← ConfigFile.load path)))
      fun
        | .config fault => pure { path, errors := [fault.message] }
        | failure => throw failure

end ProviderBindings
