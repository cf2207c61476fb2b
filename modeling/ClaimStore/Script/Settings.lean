import ClaimStore.Script.Files
import ClaimStore.Config.Settings
/-!
# Settings from a request

A request gives repository settings as a JSON object with the fields of the TOML file. Fields
are read in name order; a field that is absent takes its default, an unknown one is ignored,
and the first field of the wrong type refuses the whole object with a sentence naming the value
found and the type wanted. Container directories are relative to the scratch directory: an
empty one stays empty, and one that leaves the scratch directory is refused. Without a
`containers` field there is one container, `default`, in the directory of that name.
-/

namespace ClaimStore.Script

open ClaimStore.Text ClaimStore.Config

/-- How a value of the wrong type is named. -/
def unexpected : Json → String
  | .null => "null"
  | .bool b => "boolean `" ++ toString b ++ "`"
  | .int n => "integer `" ++ toString n ++ "`"
  | .float x => "floating point `" ++ Json.floatText x ++ "`"
  | .str s => "string " ++ quote s
  | .arr _ => "sequence"
  | .obj _ => "map"

/-- A refusal of a value that is not of the type wanted. -/
def wrongType {α : Type} (j : Json) (wanted : String) : Read α :=
  throw ("invalid type: " ++ unexpected j ++ ", expected " ++ wanted)

/-- A count of the machine's size. -/
def sizeSetting : Json → Read Nat
  | .int n =>
    if n < 0 then throw ("invalid value: integer `" ++ toString n ++ "`, expected usize")
    else if n < 2 ^ 64 then pure n.toNat
    else throw ("invalid value: integer `" ++ toString n ++ "`, expected usize")
  | j => wrongType j "usize"

/-- A flag. -/
def flagSetting : Json → Read Bool
  | .bool b => pure b
  | j => wrongType j "a boolean"

/-- A text. -/
def textSetting : Json → Read String
  | .str s => pure s
  | j => wrongType j "a string"

/-- The containers: names with their directories. -/
def containersSetting : Json → Read (List (String × String))
  | .obj fields => fields.mapM fun (name, v) =>
    match v with
    | .str p => pure (name, p)
    | j => wrongType j "path string"
  | j => wrongType j "a map"

/-- Applies one field to the settings. -/
def applySetting (s : Settings) : String × Json → Read Settings
  | ("containers", v) => do pure { s with containers := ← containersSetting v }
  | ("sections_per_container", v) => do pure { s with sections := ← sizeSetting v }
  | ("archive_enabled", v) => do pure { s with archiveEnabled := ← flagSetting v }
  | ("archive_max_usage_percentage", v) => do pure { s with archivePercentage := ← textSetting v }
  | ("archive_backpressure_percentage", .null) => pure { s with backpressurePercentage := none }
  | ("archive_backpressure_percentage", v) => do
    pure { s with backpressurePercentage := some (← textSetting v) }
  | ("archive_max_retention_period", v) => do pure { s with retention := ← textSetting v }
  | ("archive_cleanup_frequency", v) => do pure { s with cleanupFrequency := ← textSetting v }
  | ("max_appendable_claim_size", v) => do pure { s with maxAppendable := ← textSetting v }
  | ("max_pooled_claims", v) => do pure { s with maxPooled := ← sizeSetting v }
  | ("always_sync", v) => do pure { s with alwaysSync := ← flagSetting v }
  | ("destruction_interval", v) => do pure { s with destructionInterval := ← textSetting v }
  | ("reclaim_queue_capacity", v) => do pure { s with reclaimQueue := ← sizeSetting v }
  | ("reclaim_offer_timeout", v) => do pure { s with reclaimOfferTimeout := ← textSetting v }
  | _ => pure s

/-- The directory of a container under the scratch directory. -/
def containerRoot (rel : String) : Read String := do
  if rel.isEmpty then return ""
  if rel.startsWith "/" || !staysBelow rel then throw ("unsafe path " ++ quote rel)
  pure (scratchPath rel)

/-- Settings from a request's object. -/
def readSettings (j : Json) : Read Settings := do
  let .obj fields := j | throw "config must be an object"
  let sorted := fields.mergeSort fun a b => decide (a.1 ≤ b.1)
  let s ← (sorted.foldlM applySetting {}).mapError ("bad config: " ++ ·)
  let given := fields.any (·.1 == "containers")
  let containers := if given then s.containers else [("default", "default")]
  pure { s with containers := ← containers.mapM fun (n, p) => do pure (n, ← containerRoot p) }

end ClaimStore.Script
