import ProviderBindings.Data

/-!
# Receipts

What is known after a tool has been asked to do something: which tool, for which action, whether it
succeeded, and what it left behind. Tools report failure by a receipt and not by an error.
-/

namespace ProviderBindings

/-- How a tool run ended. -/
inductive Outcome where
  | ok
  | failed
  deriving DecidableEq, Repr

/-- The word for an outcome. -/
def Outcome.label : Outcome → String
  | ok => "ok"
  | failed => "failed"

/-- The record of one tool run. -/
structure Receipt where
  /-- The tool's name. -/
  adapter : String
  /-- The action it was asked to do. -/
  actionId : String
  outcome : Outcome := .ok
  /-- When the run began and ended, as far as that was noted. -/
  startedAt : String := ""
  endedAt : String := ""
  /-- How long the run took. -/
  milliseconds : Int := 0
  /-- The command line, if one was run. -/
  command : String := ""
  /-- The exit code, if a process ended. -/
  returnCode : Option Int := none
  /-- What the tool printed. -/
  output : String := ""
  /-- What went wrong. -/
  error : Option String := none
  /-- Further facts by name. -/
  metadata : List (String × Data) := []

namespace Receipt

/-- Whether the run succeeded. -/
def succeeded (r : Receipt) : Bool :=
  r.outcome == .ok

/-- The receipt of a run that failed before any process ended. -/
def failure (adapter actionId error : String) : Receipt :=
  { adapter, actionId, outcome := .failed, error := some error }

/-- One line about the run, as error messages use it. -/
def summary (r : Receipt) : String :=
  match r.outcome with
  | .ok => r.adapter ++ " succeeded"
  | .failed =>
    let code := match r.returnCode with
      | some n => s!" (exit {n})"
      | none => ""
    let detail := match r.error with
      | some e => if e.isEmpty then "" else ": " ++ e
      | none => ""
    r.adapter ++ " failed" ++ code ++ detail

end Receipt

end ProviderBindings
