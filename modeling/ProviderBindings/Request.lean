import ProviderBindings.Failure
import ProviderBindings.Path

/-!
# Requests and projects

A request asks for bindings of some providers or of some modules in one language. A project says once
and for all what a directory of code needs; it is read from the project's configuration. Both are read
from data with all that is wrong reported together, but a language that does not exist ends the
reading at once.
-/

namespace ProviderBindings

/-- The language of a name, or the error that there is none. -/
def Language.parse (s : String) : Except GenerationError Language :=
  match Language.ofName? s with
  | some l => .ok l
  | none => .error { cause := .unsupportedLanguage s }

/-- Read a language: a text must name one. Bytes count if they spell the name of one exactly. -/
def Data.asLanguage : Data → Except GenerationError (Checked Language)
  | .str s => (Language.parse s).map .good
  | .bytes values =>
    match Language.all.find? fun l => l.name.toUTF8.toList == values with
    | some l => .ok (.good l)
    | none => .ok (.issue .notLanguage)
  | _ => .ok (.issue .notLanguage)

/-- Read a path. -/
def Data.asPath : Data → Checked Path
  | .str s => .good (Path.ofString s)
  | _ => .issue .notPath

/-- What to generate, in which language, and where to put it. -/
structure Request where
  language : Language
  outputDirectory : Path
  /-- The constraints of the providers or modules, as written. -/
  names : List String := []
  kind : TargetKind := .provider
  deriving DecidableEq, Repr

namespace Request

/-- Read the fields of a request, given its language. -/
def ofFields (language : Checked Language) (fields : List (String × Data)) : Checked Request :=
  (fun language directory names isModule =>
      { language, outputDirectory := directory, names
        kind := if isModule then .module else .provider }) <$>
    language.under (.field "target_language") <*>
    Data.required "output_directory" Data.asPath fields <*>
    Data.optional "names" [] (Data.asList Data.asText) fields <*>
    Data.optional "is_module" false Data.asBool fields

/-- Read a request. -/
def ofData : Data → Except GenerationError (Checked Request)
  | .dict fields =>
    match Data.field? "target_language" fields with
    | none => .ok (ofFields (.issue .missing) fields)
    | some value => do
      let language ← value.asLanguage
      pure (ofFields language fields)
  | _ => .ok (.issue (.notRecord "GenerationRequest"))

end Request

/-- What a project wants bindings for. -/
structure Project where
  language : Language := .typescript
  /-- The directory for generated code, as a path text. -/
  output : String := ".gen"
  providers : List String := []
  modules : List String := []
  deriving DecidableEq, Repr

namespace Project

/-- Read a list of constraints, where null is the empty list. -/
def asNames : Data → Checked (List String)
  | .null => .good []
  | value => value.asList Data.asText

/-- Read the fields of a project, given its language. -/
def ofFields (language : Checked Language) (fields : List (String × Data)) : Checked Project :=
  (fun language output providers modules => { language, output, providers, modules }) <$>
    language.under (.field "language") <*>
    Data.optional "output" ".gen" Data.asText fields <*>
    Data.optional "providers" [] asNames fields <*>
    Data.optional "modules" [] asNames fields

/-- Read a project. -/
def ofData : Data → Except GenerationError (Checked Project)
  | .dict fields =>
    match Data.field? "language" fields with
    | none => .ok (ofFields (.good .typescript) fields)
    | some value => do
      let language ← value.asLanguage
      pure (ofFields language fields)
  | _ => .ok (.issue (.notRecord "ProjectConfig"))

/-- The constraints of one kind. -/
def names (p : Project) : TargetKind → List String
  | .provider => p.providers
  | .module => p.modules

end Project

end ProviderBindings
