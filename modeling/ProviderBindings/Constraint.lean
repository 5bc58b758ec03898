import ProviderBindings.Text.Blank
import ProviderBindings.Text.Letters
import ProviderBindings.Text.Split

/-!
# Provider and module constraints

A constraint names a provider or module, with an optional version requirement after an at sign:

    aws                                  name aws
    hashicorp/aws@~> 3.0                 name aws, qualified name hashicorp/aws, version ~> 3.0
    terraform-aws-modules/vpc/aws        name aws, scope vpc

The qualified name is what stands before the at sign, one or more segments between slashes; the name
is its last segment. `Constraint.resolve` reads a constraint or says what is wrong with it.
-/

namespace ProviderBindings

/-- Whether bindings are for a provider or for a module. -/
inductive TargetKind where
  | provider
  | module
  deriving DecidableEq, Repr

/-- The word for a kind of target. -/
def TargetKind.label : TargetKind → String
  | provider => "provider"
  | module => "module"

/-- A provider or module reference that has been read. -/
structure Constraint where
  /-- The constraint as written, without blanks at its ends. -/
  text : String
  /-- The qualified name. -/
  qualifiedName : String
  /-- The last segment of the qualified name. -/
  name : String
  /-- The segment before the name. -/
  scope : Option String
  /-- The version requirement. -/
  version : Option String
  deriving DecidableEq, Repr

/-- Why a name cannot be used as a constraint. -/
inductive ResolutionFault where
  /-- The constraint is blank. -/
  | empty
  /-- A second at sign stands in the version. -/
  | severalVersions (constraint : String)
  /-- Nothing follows the at sign. -/
  | emptyVersion (constraint : String)
  /-- A segment of the qualified name is not one. -/
  | badSegment (constraint segment : String)
  /-- Two names of a request would be written to the same place. -/
  | collision (earlier : String) (kind : TargetKind) (key : String)
  /-- A fault reported from outside, in its own words. -/
  | reported (text : String)
  deriving DecidableEq, Repr

/-- The wording of a fault. -/
def ResolutionFault.message : ResolutionFault → String
  | empty => "empty provider/module constraint"
  | severalVersions constraint => s!"invalid constraint '{constraint}': more than one '@'"
  | emptyVersion constraint => s!"invalid constraint '{constraint}': empty version after '@'"
  | badSegment constraint segment => s!"invalid constraint '{constraint}': bad segment '{segment}'"
  | collision earlier kind key =>
    s!"collides with '{earlier}': both produce " ++ kind.label ++ s!" '{key}'"
  | reported text => text

namespace Constraint

/-- A character that may stand in a segment. -/
def isSegmentChar (c : Char) : Bool :=
  Text.isAlphanumeric c || c == '.' || c == '_' || c == '-'

/-- The characters without one line feed at their end. -/
def dropLineFeed (cs : List Char) : List Char :=
  if cs.getLast? = some '\n' then cs.dropLast else cs

/-- Whether characters form a segment: a letter or digit, then letters, digits, dots, underscores and
dashes. A single line feed at the end is let through. -/
def isSegment (cs : List Char) : Bool :=
  match dropLineFeed cs with
  | [] => false
  | first :: rest => Text.isAlphanumeric first && rest.all isSegmentChar

/-- Read a constraint. -/
def resolve (constraint : String) : Except ResolutionFault Constraint :=
  let text := Text.stripChars constraint.toList
  if text.isEmpty then .error .empty
  else
    let (before, after) := Text.cutFirst '@' text
    let qualified := Text.stripChars before
    let version := after.map Text.stripChars
    if version.any (·.contains '@') then .error (.severalVersions constraint)
    else if version == some [] then .error (.emptyVersion constraint)
    else
      let segments := Text.splitChars '/' qualified
      match segments.find? fun segment => !isSegment segment with
      | some segment => .error (.badSegment constraint (String.ofList segment))
      | none => .ok
        { text := String.ofList text
          qualifiedName := String.ofList qualified
          name := String.ofList (segments.getLastD [])
          scope := segments.dropLast.getLast?.map String.ofList
          version := version.map String.ofList }

/-- The identifier that a target is compiled and stored under: the qualified name of a module, the
short name of a provider. -/
def source (c : Constraint) : TargetKind → String
  | .provider => c.name
  | .module => c.qualifiedName

/-- The version to record: the one that was asked for, or any. -/
def versionOrAny (c : Constraint) : String :=
  c.version.getD "*"

end Constraint

/-- A source as a package name: slashes become underscores. -/
def packageName (source : String) : String :=
  Text.swapChar '/' '_' source

/-- A source as the name of an importable directory: dashes become underscores. -/
def importName (source : String) : String :=
  Text.swapChar '-' '_' source

end ProviderBindings
