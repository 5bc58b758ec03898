import ProviderBindings.Constraint

/-!
# Notices

What the library tells its user while it works. A notice is logged as a record with a level, the name
of the part of the program it comes from and the place in it.
-/

namespace ProviderBindings

/-- A message to the log. -/
structure LogRecord where
  /-- How grave the message is. -/
  level : Int
  /-- The part of the program it comes from. -/
  logger : String
  /-- The place in that part. -/
  line : Nat
  message : String
  deriving DecidableEq, Repr

/-- The levels of messages. -/
inductive LogLevel where
  | notset
  | debug
  | info
  | warning
  | error
  | critical
  deriving DecidableEq, Repr

/-- The number of a level. -/
def LogLevel.number : LogLevel → Int
  | notset => 0
  | debug => 10
  | info => 20
  | warning => 30
  | error => 40
  | critical => 50

/-- Something worth telling. -/
inductive Notice where
  | nothingRequested (kind : TargetKind)
  | saved (count : Nat) (directory : String)
  | building (kind : TargetKind) (source language : String)
  | harvested (name target : String)
  | running (adapter actionId directory : String)
  | toolBroke (adapter reason : String)
  | toolFailed (adapter actionId : String) (error : Option String)
  | replacingTool (adapter : String)
  | configLoaded (file : String) (providers modules : Nat) (language : String)
  | generationFailed (description : String)
  deriving DecidableEq, Repr

namespace Notice

/-- How grave a notice is. -/
def level : Notice → LogLevel
  | nothingRequested _ => .warning
  | toolBroke _ _ => .error
  | toolFailed _ _ _ => .warning
  | replacingTool _ => .warning
  | generationFailed _ => .error
  | _ => .info

/-- The part of the program that gives a notice, and the place in it. -/
def site : Notice → String × Nat
  | nothingRequested _ => ("bindgen.core.services.get.base", 164)
  | saved _ _ => ("bindgen.core.services.get.base", 176)
  | building _ _ _ => ("bindgen.core.services.get.base", 202)
  | harvested _ _ => ("bindgen.core.services.get.harvest", 81)
  | running _ _ _ => ("bindgen.adapters.registry", 102)
  | toolBroke _ _ => ("bindgen.adapters.registry", 107)
  | toolFailed _ _ _ => ("bindgen.adapters.registry", 116)
  | replacingTool _ => ("bindgen.adapters.registry", 29)
  | configLoaded _ _ _ _ => ("bindgen.core.config.loader", 89)
  | generationFailed _ => ("bindgen.core.use_cases.get", 129)

/-- The wording of a notice. -/
def message : Notice → String
  | nothingRequested kind => "No " ++ kind.label ++ "s requested, nothing to generate"
  | saved count directory => s!"Saved {count} TypeScript file(s) to {directory}"
  | building kind source language => "Building " ++ kind.label ++ s!" {source} for {language}"
  | harvested name target => s!"Harvested {name} → {target}"
  | running adapter actionId directory => s!"Running {adapter} ({actionId}) in {directory}"
  | toolBroke adapter reason => s!"Adapter {adapter} raised during execution: {reason}"
  | toolFailed adapter actionId error => s!"{adapter} ({actionId}) failed: " ++ error.getD "None"
  | replacingTool adapter => s!"Overwriting existing adapter: {adapter}"
  | configLoaded file providers modules language =>
    s!"Loaded {file}: {providers} provider(s), {modules} module(s), language={language}"
  | generationFailed description => s!"Generation failed: {description}"

/-- The record that a notice leaves in the log. -/
def record (n : Notice) : LogRecord :=
  ⟨n.level.number, n.site.1, n.site.2, n.message⟩

end Notice

end ProviderBindings
