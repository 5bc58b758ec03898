import ProviderBindings.Host
import ProviderBindings.Request
import ProviderBindings.Yaml.Document

/-!
# Configuration files

A project is configured by a file that is looked up from the working directory towards the root, so that
the command works from anywhere inside the project.
-/

namespace ProviderBindings.ConfigFile

/-- The name of a configuration file. -/
def fileName : String := "bindgen.yml"

/-- How many directories a search looks into. -/
def searchLimit : Nat := 20

/-- The configuration file in the first of the directories on the way to the root that has one, among
as many directories as the limit says. -/
def searchUpwards (fs : FileSystem) : Nat → Path → Except SystemError (Option Path)
  | 0, _ => .ok none
  | limit + 1, directory => do
    let candidate := directory.child fileName
    if ← fs.isFile candidate then pure (some candidate)
    else if directory.names.isEmpty then pure none
    else searchUpwards fs limit directory.parent

/-- The nearest configuration file from a directory. -/
def findFrom (start : Path) : HostAction (Option Path) := do
  let directory ← Host.resolve start
  Host.look fun fs => searchUpwards fs searchLimit directory

/-- The nearest configuration file from the working directory. -/
def find? : HostAction (Option Path) := do
  findFrom (← Host.workingDirectory)

/-- The path that is given, or else that of the nearest configuration file. -/
def givenOrNearest (path : Option Path) : HostAction (Option Path) :=
  match path with
  | some path => pure (some path)
  | none => find?

/-- The directory that relative paths of a configuration file start from. -/
def projectRoot (path : Path) : HostAction Path :=
  Host.resolve path.parent

/-- A text with every line end made a line feed. -/
def normalizeLines : List Char → List Char
  | [] => []
  | '\r' :: '\n' :: rest => '\n' :: normalizeLines rest
  | '\r' :: rest => '\n' :: normalizeLines rest
  | c :: rest => c :: normalizeLines rest

/-- The kind of error that a fault of a scalar counts as. -/
def foreignKind : Yaml.ScalarFault → ForeignKind
  | .notBool _ => .key
  | .emptyNumber => .index
  | .notTimestamp => .attribute
  | .hugeCharacter => .overflow
  | .hugeFloat => .overflow
  | .timestampMapping => .type
  | .endless => .recursion
  | _ => .value

/-- The project that a text configures. -/
def projectOfText (path : String) (text : String) : Except Failure Project :=
  match Data.ofYaml (String.ofList (normalizeLines text.toList)) with
  | .error .malformed => .error (.config (.malformed path))
  | .error (.scalar fault) => .error (.foreign (foreignKind fault) fault.message)
  | .ok value =>
    let fields : Except Failure (List (String × Data)) := match value with
      | .null => .ok []
      | .dict fields => .ok fields
      | other => .error (.config (.notMapping path other.typeName))
    fields.bind fun fields =>
      match Project.ofData (.dict fields) with
      | .error { cause := .unsupportedLanguage language, .. } =>
        .error (.config (.unknownLanguage language))
      | .error e => .error (.generation e)
      | .ok (.bad issues) => .error (.config (.invalid issues))
      | .ok (.good project) => .ok project

/-- The project of the configuration file at a path. -/
def read (path : Path) : HostAction Project := do
  match ← Host.look (·.status .follow path) with
  | some (.file (.text text) _) =>
    match projectOfText path.text text with
    | .ok project => pure project
    | .error failure => throw failure
  | some (.file (.bytes _) _) => throw .undecodable
  | _ => throw (.config (.notFound path.text))

/-- Read the project of a configuration file, the nearest one unless a path is given. -/
def load (path : Option Path) : HostAction Project := do
  match ← givenOrNearest path with
  | none => throw (.config .missing)
  | some path =>
    let project ← read path
    Host.note (.configLoaded path.name project.providers.length project.modules.length
      project.language.name)
    pure project

end ProviderBindings.ConfigFile
