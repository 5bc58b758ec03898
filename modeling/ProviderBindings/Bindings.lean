import ProviderBindings.Emitter
import ProviderBindings.Json

/-!
# Generated TypeScript

What is generated for a request: for each provider or module one file that exposes the resolved
constraint as the constants of a class, and one index of the versions of all of them. The index is a
JSON object sorted by qualified name.
-/

namespace ProviderBindings

/-- Where the code of a provider or module lives below the output directory. -/
structure Layout where
  kind : TargetKind
  /-- The directory for targets of the kind. -/
  root : String
  deriving DecidableEq, Repr

namespace Layout

/-- The layout for a kind of target. -/
def ofKind : TargetKind → Layout
  | .provider => ⟨.provider, "providers"⟩
  | .module => ⟨.module, "modules"⟩

/-- The directory for one provider or module. -/
def typesPath (l : Layout) (source : String) : String :=
  l.root ++ "/" ++ source

end Layout

/-- A computation that writes to an emitter and may fail. What was written before it failed stays. -/
abbrev Emission := ExceptT Failure (StateM Emitter)

/-- Do one operation on the emitter. -/
def Emission.step (operation : Emitter → Except EmitterFault Emitter) : Emission Unit :=
  fun e =>
    match operation e with
    | .ok e' => (.ok (), e')
    | .error fault => (.error (.emitter fault), e)

/-- The runs of ASCII letters and digits in a text. -/
def alphanumericRuns (cs : List Char) : List (List Char) :=
  (go cs).filter (!·.isEmpty)
where
  /-- The pieces between other characters. -/
  go : List Char → List (List Char)
    | [] => [[]]
    | c :: cs =>
      if Text.isAlphanumeric c then
        match go cs with
        | [] => [[c]]
        | run :: runs => (c :: run) :: runs
      else [] :: go cs

/-- A run with its first letter made a capital. -/
def capitalized : List Char → List Char
  | [] => []
  | c :: cs => Text.upperChar c :: cs

/-- The name of the class for a target: the capitalized runs of letters and digits of its name, with a
T in front when they start with a digit, and the word Constraint. -/
def className (name : String) : String :=
  let base := (alphanumericRuns name.toList).flatMap capitalized
  let base := if base.isEmpty then "Target".toList else base
  let base := if base.head?.any Text.isDigit then 'T' :: base else base
  String.ofList base ++ "Constraint"

namespace Constraint

/-- The lines of the file for a constraint, inside and around its class. -/
def emit (c : Constraint) (path : String) : Emission Unit := do
  let constant (name value : String) : Emission Unit :=
    Emission.step (·.line ("public static readonly " ++ name ++ " = " ++ Json.quote value ++ ";"))
  Emission.step (·.openFile path)
  Emission.step (·.line ("// generated by bindgen from " ++ Json.quote c.text))
  Emission.step (·.line "")
  Emission.step (·.openBlock ("export class " ++ className c.name))
  constant "FQN" c.qualifiedName
  constant "NAME" c.name
  constant "VERSION" c.versionOrAny
  Emission.step (·.closeBlock Emitter.blockEnd)
  Emission.step (·.closeFile path)

/-- Resolve a constraint in the stage of that name. -/
def resolveStaged {m : Type → Type} [Monad m] [MonadExcept Failure m] (name : String) :
    m Constraint :=
  inStage (some name) "resolve"
    (match Constraint.resolve name with
      | .ok c => pure c
      | .error fault => throw (.generation { cause := .resolution fault }))

end Constraint

namespace VersionIndex

/-- The file that holds the version index. -/
def fileName : String := "versions.json"

/-- The text of the index of versions, sorted by name. -/
def text (versions : List (String × String)) : String :=
  let sorted := versions.mergeSort fun a b => decide (a.1 ≤ b.1)
  (Json.obj (sorted.map fun (name, version) => (name, .str version))).render ++ "\n"

end VersionIndex

/-- Write the file for one name, and put its version into the index. -/
def emitName (layout : Layout) (kind : TargetKind) (versions : List (String × String)) (name : String) :
    Emission (List (String × String)) := do
  let constraint ← Constraint.resolveStaged name
  constraint.emit (layout.typesPath (constraint.source kind) ++ "/index.ts")
  pure (Assoc.set constraint.qualifiedName constraint.versionOrAny versions)

/-- Write the files of a layout for the given names, one after another, and the index of their
versions. -/
def emitBindings (layout : Layout) (names : List String) (kind : TargetKind) : Emission Unit := do
  let versions ← names.foldlM (emitName layout kind) []
  Emission.step fun e => .ok (e.addFile VersionIndex.fileName (VersionIndex.text versions))

end ProviderBindings
