import ProviderBindings.Constraint
import ProviderBindings.Language
import ProviderBindings.Receipt
import ProviderBindings.SystemError
import ProviderBindings.Validation

/-!
# Failures

Everything that can end a generation early. A `GenerationError` has a cause, and is stamped on its way
out with the target it happened for and the stage it happened in: each stamp is set once, by the
innermost block that knows it. `Failure.inStage` is that stamping; it also turns an operating system's
error into the generation error of the stage.
-/

namespace ProviderBindings

/-- Why packaged code could not be collected. -/
inductive HarvestFault where
  /-- The packager left nothing where its output belongs. -/
  | outputMissing (source : String)
  /-- The packaged code could not be moved. -/
  | cannotMove (source target : String) (reason : SystemError)
  /-- The file that makes the output directory importable could not be written. -/
  | cannotMark (marker : String) (reason : SystemError)
  /-- TypeScript has nothing to collect. -/
  | primaryLanguage
  /-- A fault reported from outside, in its own words. -/
  | reported (text : String)

/-- The wording of a fault. -/
def HarvestFault.message : HarvestFault → String
  | outputMissing source => s!"packager output not found: {source}"
  | cannotMove source target reason => s!"cannot move {source} to {target}: " ++ reason.message
  | cannotMark marker reason => s!"cannot write package marker {marker}: " ++ reason.message
  | primaryLanguage => "no op for typescript"
  | reported text => text

/-- What a generation error is about. -/
inductive Cause where
  /-- Bindings in this language cannot be produced. -/
  | unsupportedLanguage (language : String)
  /-- A tool run failed. -/
  | toolFailed (receipt : Receipt)
  | harvest (fault : HarvestFault)
  | resolution (fault : ResolutionFault)
  /-- A file operation failed. -/
  | system (e : SystemError)
  /-- A file operation failed in some way, in its own words. -/
  | staging (text : String)
  /-- Any other failure, in its own words. -/
  | other (text : String)

/-- The wording of a cause. -/
def Cause.message : Cause → String
  | unsupportedLanguage language => s!"unsupported language {language} (yet)"
  | toolFailed receipt => receipt.summary
  | harvest fault => fault.message
  | resolution fault => fault.message
  | system e => e.message
  | staging text => text
  | other text => text

/-- A failure of generation, with what is known about where it happened. -/
structure GenerationError where
  cause : Cause
  /-- The provider or module it happened for. -/
  target : Option String := none
  /-- The stage it happened in. -/
  stage : Option String := none

namespace GenerationError

/-- The wording of the failure itself. -/
def message (e : GenerationError) : String :=
  e.cause.message

/-- The failure with its target and its stage in front, as far as they are known and not empty. -/
def describe (e : GenerationError) : String :=
  let target := e.target.getD ""
  let stage := e.stage.getD ""
  let place :=
    if stage.isEmpty then target
    else if target.isEmpty then "[" ++ stage ++ "]"
    else target ++ " [" ++ stage ++ "]"
  if place.isEmpty then e.message else place ++ ": " ++ e.message

/-- Note target and stage where they are not yet known. -/
def stamp (target : Option String) (stage : String) (e : GenerationError) : GenerationError :=
  { e with target := e.target.or target, stage := e.stage.or (some stage) }

end GenerationError

/-- Misuse of a code emitter. -/
inductive EmitterFault where
  | stillOpen (path current : String)
  | notOpen (path : String) (current : Option String)
  | openBlocks (path : String) (count : Nat)
  | noOpenFile
  | noOpenBlock
  | saveWhileOpen (current : String)
  deriving DecidableEq, Repr

/-- The wording of a misuse. -/
def EmitterFault.message : EmitterFault → String
  | stillOpen path current => s!"Cannot open {path}: {current} is still open"
  | notOpen path current => s!"Cannot close {path}: open file is " ++ current.getD "None"
  | openBlocks path count => s!"Cannot close {path}: {count} block(s) still open"
  | noOpenFile => "No open file"
  | noOpenBlock => "No open block"
  | saveWhileOpen current => s!"Cannot save while {current} is open"

/-- Why a project's configuration cannot be used. -/
inductive ConfigFault where
  /-- There is no configuration file. -/
  | missing
  /-- No file stands at the path. -/
  | notFound (path : String)
  /-- The file is not well-formed. -/
  | malformed (path : String)
  /-- The file holds something else than a mapping. -/
  | notMapping (path typeName : String)
  /-- The settings are not valid. -/
  | invalid (issues : List Issue)
  /-- The language asked for does not exist. -/
  | unknownLanguage (language : String)

/-- The wording of a fault. -/
def ConfigFault.message : ConfigFault → String
  | missing =>
    "No bindgen.yml found. Create one or pass --provider/--module on the command line."
  | notFound path => s!"Config file not found: {path}"
  | malformed path => s!"Invalid YAML in {path}"
  | notMapping path typeName => s!"Expected a YAML mapping in {path}, got {typeName}"
  | invalid issues => "Invalid project configuration: " ++ Issue.report "ProjectConfig" issues
  | unknownLanguage language =>
    "Invalid project configuration: " ++ (Cause.unsupportedLanguage language).message

/-- The kinds of errors that come from outside this library: from tools, and from values in files
that look like a number or a date and are none. -/
inductive ForeignKind where
  | runtime
  | value
  /-- A missing key; its text is shown quoted. -/
  | key
  | index
  | attribute
  /-- A value of the wrong kind. -/
  | type
  /-- Work that never comes to an end. -/
  | recursion
  /-- A number too large for where it is used. -/
  | overflow
  deriving DecidableEq, Repr

/-- Whatever can end a computation of this library. -/
inductive Failure where
  | generation (e : GenerationError)
  | system (e : SystemError)
  /-- A path text holds the zero byte. -/
  | zeroByte
  /-- A text with a half of a surrogate pair was to be made bytes. -/
  | unencodable
  | emitter (fault : EmitterFault)
  | config (fault : ConfigFault)
  /-- A record named `record` could not be read from data. -/
  | invalid (record : String) (issues : List Issue)
  /-- A file does not hold text. -/
  | undecodable
  /-- The links at a path lead round in a circle. -/
  | linkLoop (path : String)
  | foreign (kind : ForeignKind) (text : String)

namespace Failure

/-- The text of a failure. -/
def text : Failure → String
  | generation e => e.message
  | system e => e.message
  | zeroByte => "embedded null byte"
  | unencodable => "surrogates not allowed"
  | emitter fault => fault.message
  | config fault => fault.message
  | invalid record issues => Issue.report record issues
  | undecodable => "not a text in UTF-8"
  | linkLoop path => "Symlink loop from " ++ Text.quoted path
  | foreign .key text => Text.quoted text
  | foreign _ text => text

/-- What comes out of a block of work on a target in a stage when this failure comes up in it. -/
def inStage (target : Option String) (stage : String) : Failure → Failure
  | generation e => .generation (e.stamp target stage)
  | system e => .generation { cause := .system e, target, stage := some stage }
  | failure => failure

end Failure

/-- Run a block of work on a target in a stage. -/
def inStage {m : Type → Type} [MonadExcept Failure m] [Monad m] (target : Option String)
    (stage : String) (work : m α) : m α :=
  tryCatch work fun failure => throw (failure.inStage target stage)

end ProviderBindings
