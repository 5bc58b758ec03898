import ProviderBindings.Tool.Command
import ProviderBindings.Tool.StandIn

/-!
# Tool registries

The tools of a run by name. Every action goes through `Registry.execute`, which finds the tool, asks
whether it objects, runs it and gives back a receipt; whatever goes wrong on the way is a failed receipt
and not an error. What was asked for and what came of it is kept with the session.
-/

namespace ProviderBindings

/-- A tool: an external command, or a stand-in. -/
inductive Tool where
  | command (tool : CommandTool)
  | standIn (tool : StandIn)

namespace Tool

/-- The name of a tool. -/
def name : Tool → String
  | command t => t.kind.command
  | standIn s => s.name

/-- The word for the kind of a tool. -/
def kindName : Tool → String
  | command ⟨.compiler, _⟩ => "JsiiAdapter"
  | command ⟨.packager, _⟩ => "PacmakAdapter"
  | standIn _ => "MockAdapter"

/-- How a tool is shown. -/
def display (t : Tool) : String :=
  "<" ++ t.kindName ++ " name=" ++ Text.quoted t.name ++ ">"

/-- Whether the tool is there, or what asking that breaks with. -/
def isAvailable (host : Host) : Tool → Except Failure Bool
  | command t => (t.isAvailable host).mapError .system
  | standIn s => s.availability

/-- What the tool objects to in a context, or what asking that breaks with. -/
def objection (context : Context) (host : Host) : Tool → Except Failure (Option String)
  | command t => (t.objection? context host).mapError .system
  | standIn s => s.objection context host

/-- The tool after it was asked to act in a context. -/
def asked (context : Context) : Tool → Tool
  | command t => command t
  | standIn s => standIn (s.asked context)

/-- Act in a context. -/
def execute (context : Context) : Tool → HostAction Receipt
  | command t => t.execute context
  | standIn s => s.execute context

end Tool

/-- Tools by name, in the order in which the names were first registered. -/
structure Registry where
  tools : List (String × Tool) := []

namespace Registry

/-- The tool of a name. -/
def find? (r : Registry) (name : String) : Option Tool :=
  Assoc.get? name r.tools

/-- The registry with a tool put under its name. -/
def insert (r : Registry) (t : Tool) : Registry :=
  ⟨Assoc.set t.name t r.tools⟩

/-- The registry without the tool of a name. -/
def erase (r : Registry) (name : String) : Registry :=
  ⟨Assoc.erase name r.tools⟩

/-- The registry with the tool of a name changed. -/
def change (r : Registry) (name : String) (f : Tool → Tool) : Registry :=
  ⟨r.tools.map fun (n, t) => if n == name then (n, f t) else (n, t)⟩

/-- The names of the tools. -/
def names (r : Registry) : List String :=
  r.tools.map (·.1)

/-- A tool put into the registry is found under its name, and every other name finds what it found. -/
theorem find?_insert (r : Registry) (t : Tool) (name : String) :
    (r.insert t).find? name = if t.name == name then some t else r.find? name :=
  Assoc.get?_set t.name name t r.tools

/-- An erased name finds no tool, and every other name finds what it found. -/
theorem find?_erase (r : Registry) (erased name : String) :
    (r.erase erased).find? name = if erased == name then none else r.find? name :=
  Assoc.get?_erase erased name r.tools

/-- The real tools. -/
def standard : Registry :=
  ⟨[CommandKind.compiler, .packager].map fun kind => (kind.command, .command { kind })⟩

/-- What is known about a registered tool. -/
structure Status where
  name : String
  available : Bool
  kindName : String
  deriving DecidableEq, Repr

/-- The state of every tool; one that breaks when asked counts as not available. -/
def status (r : Registry) (host : Host) : List Status :=
  r.tools.map fun (name, tool) =>
    ⟨name, (tool.isAvailable host).toOption.getD false, tool.kindName⟩

end Registry

/-- An action that was asked for, with the host before and after it, and the receipt it got. -/
structure Dispatch where
  context : Context
  before : Host
  after : Host
  receipt : Receipt

/-- A host with the tools registered on it. -/
structure Session where
  host : Host
  registry : Registry := {}
  /-- The actions that were asked for, oldest first. -/
  dispatches : List Dispatch := []

/-- A computation on a host with tools. What it did before it failed stays done. -/
abbrev Run := ExceptT Failure (StateM Session)

namespace Run

/-- Do something on the host. -/
def onHost (work : HostAction α) : Run α :=
  fun session =>
    let (result, host) := work.run session.host
    (result, { session with host })

/-- Leave a notice in the log. -/
def note (n : Notice) : Run Unit :=
  onHost (Host.note n)

/-- The outcome of a computation, whichever it is. -/
def attempt (work : Run α) : Run (Except Failure α) :=
  fun session =>
    let (result, session) := work.run session
    (.ok result, session)

/-- Register a tool. One that was registered under that name before is replaced, with a notice. -/
def register (t : Tool) : Run Unit := do
  if ((← get).registry.find? t.name).isSome then
    note (.replacingTool t.name)
  modify fun session => { session with registry := session.registry.insert t }

/-- Ask a tool that does not object to act, and turn an error into a failed receipt. -/
def runTool (tool : Tool) (context : Context) : Run Receipt := do
  let action := context.action
  note (.running action.adapter action.id context.workingDirectory)
  modify fun session =>
    { session with registry := session.registry.change action.adapter (·.asked context) }
  let receipt ← match ← attempt (onHost (tool.execute context)) with
    | .ok receipt => pure receipt
    | .error failure => do
      note (.toolBroke action.adapter failure.text)
      pure (Receipt.failure action.adapter action.id ("Unexpected error: " ++ failure.text))
  if !receipt.succeeded then
    note (.toolFailed action.adapter action.id receipt.error)
  pure receipt

/-- The answer of the tool that is registered for an action, in a context. -/
def answer (context : Context) : Run Receipt := do
  let action := context.action
  let failed (error : String) : Receipt := Receipt.failure action.adapter action.id error
  let session ← get
  match session.registry.find? action.adapter with
  | none => pure (failed ("No adapter registered for '" ++ action.adapter ++ "'"))
  | some tool =>
    match tool.objection context session.host with
    | .error failure => pure (failed ("Validation error: " ++ failure.text))
    | .ok (some objection) => pure (failed ("Validation failed: " ++ objection))
    | .ok none => runTool tool context

/-- Do an action in a context with the tool registered for it. -/
def execute (context : Context) : Run Receipt := do
  let before := (← get).host
  let receipt ← answer context
  modify fun session =>
    { session with dispatches := session.dispatches ++ [⟨context, before, session.host, receipt⟩] }
  pure receipt

end Run

end ProviderBindings
