import ProviderBindings.Tool.Registry
import ProviderBindings.Validation

/-!
# Reading tool records

Actions, contexts and receipts are read from data field by field.
-/

namespace ProviderBindings

/-- Read the outcome of a tool run. -/
def Data.asOutcome : Data → Checked Outcome
  | .str "ok" => .good .ok
  | .str "failed" => .good .failed
  | _ => .issue .notOutcome

namespace Receipt

/-- Read the fields of a receipt. -/
def ofFields (fields : List (String × Data)) : Checked Receipt :=
  (fun adapter actionId outcome startedAt endedAt milliseconds command returnCode output error
      metadata =>
    { adapter, actionId, outcome, startedAt, endedAt, milliseconds, command, returnCode, output,
      error, metadata }) <$>
    Data.required "adapter" Data.asText fields <*>
    Data.required "action_id" Data.asText fields <*>
    Data.optional "status" .ok Data.asOutcome fields <*>
    Data.optional "started_at" "" Data.asText fields <*>
    Data.optional "ended_at" "" Data.asText fields <*>
    Data.optional "duration_ms" 0 Data.asInt fields <*>
    Data.optional "command" "" Data.asText fields <*>
    Data.optional "return_code" none (Data.asOptional Data.asInt) fields <*>
    Data.optional "output" "" Data.asText fields <*>
    Data.optional "error" none (Data.asOptional Data.asText) fields <*>
    Data.optional "metadata" [] (Data.asDictionary .good) fields

end Receipt

namespace Action

/-- Read an action. -/
def ofData : Data → Checked Action
  | .dict fields =>
    (fun id adapter args params forTarget => { id, adapter, args, params, forTarget }) <$>
      Data.required "id" Data.asText fields <*>
      Data.required "adapter" Data.asText fields <*>
      Data.optional "args" [] (Data.asList Data.asText) fields <*>
      Data.optional "params" [] (Data.asDictionary .good) fields <*>
      Data.optional "for_target" none (Data.asOptional Data.asText) fields
  | _ => .issue (.notRecord "Action")

end Action

namespace Context

/-- Read what surrounds an action. -/
def ofFields (action : Action) (fields : List (String × Data)) : Checked Context :=
  (fun workingDirectory environment timeout =>
    { action, workingDirectory, environment, timeout }) <$>
    Data.optional "working_dir" "." Data.asText fields <*>
    Data.optional "env" [] (Data.asDictionary Data.asText) fields <*>
    Data.optional "timeout" 600 Data.asInt fields

/-- The fields of a context without an environment that counts as nothing. -/
def dropVoidEnvironment (fields : List (String × Data)) : List (String × Data) :=
  fields.filter fun (name, value) => !(name == "env" && value.isVoid)

end Context

end ProviderBindings
