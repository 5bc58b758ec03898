import ProviderBindings.Host

/-!
# Stand-in tools

A tool whose behaviour is given as data and functions: whether it is there, what it objects to, which
actions fail, and what it does to the host. It remembers the contexts it was asked to act in, those
that failed included.
-/

namespace ProviderBindings

/-- A tool given by its behaviour. -/
structure StandIn where
  name : String := "mock"
  /-- Whether the tool is there, or what asking that breaks with. -/
  availability : Except Failure Bool := .ok true
  /-- What a successful run prints. -/
  output : String := "[mock] executed"
  /-- The targets and actions that fail, with the error of each. -/
  failures : List (String × String) := []
  /-- What the tool objects to in a context, or what asking that breaks with. -/
  objection : Context → Host → Except Failure (Option String) := fun _ _ => .ok none
  /-- What a run does. -/
  effect : Context → HostAction Unit := fun _ => pure ()
  /-- The contexts the tool was asked to act in, oldest first. -/
  seen : List Context := []

namespace StandIn

variable (s : StandIn)

/-- The stand-in, which now fails every action for a target or of a name. -/
def failOn (target error : String) : StandIn :=
  { s with failures := Assoc.set target error s.failures }

/-- The stand-in without memory and without failures. -/
def reset : StandIn :=
  { s with failures := [], seen := [] }

/-- The stand-in after it was asked to act in a context. -/
def asked (context : Context) : StandIn :=
  { s with seen := s.seen ++ [context] }

/-- The error that an action is to fail with: the one for its target, else the one for its name. -/
def failureFor (action : Action) : Option String :=
  match action.forTarget.bind (Assoc.get? · s.failures) with
  | some error => some error
  | none => Assoc.get? action.id s.failures

/-- Act in a context. -/
def execute (context : Context) : HostAction Receipt := do
  match s.failureFor context.action with
  | some error =>
    pure { Receipt.failure s.name context.action.id error with returnCode := some 1 }
  | none => do
    Host.noteStart (.standIn s.name context)
    s.effect context
    pure
      { adapter := s.name, actionId := context.action.id, output := s.output, returnCode := some 0
        metadata := [("mock", .bool true)] }

end StandIn

end ProviderBindings
