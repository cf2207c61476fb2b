import ClaimStore.Script.Request
import ClaimStore.Config.Settings
import ClaimStore.Claim.Basic
import ClaimStore.Claim.Id
/-!
# Requests on settings and claims

Reading quantities and configurations, and the claim model: ids, lifecycle states, coordinates,
resource and content claims.
-/

namespace ClaimStore.Script

open ClaimStore.Text ClaimStore.Config ClaimStore.Claim

/-- A configuration issue as an answer. -/
def issueAnswer (i : Issue) : Json := failure "Config" ("configuration error: " ++ i.message)

/-- A refused claim as an answer. -/
def claimErrorAnswer (e : ClaimError) : Json :=
  let kind := match e with
    | .invalidId _ => "InvalidClaimId"
    | .invalidCoordinates => "InvalidCoordinates"
    | .illegalTransition _ _ => "IllegalTransition"
  failure kind e.message

/-- Resolved settings as an answer. -/
def resolvedJson (r : Resolved) : Json :=
  obj [("containers", .arr (r.containers.map fun (n, p) => .arr [.str n, .str p])),
    ("sections_per_container", .nat r.sections), ("archive_enabled", .bool r.archiveEnabled),
    ("max_archive_ratio", .float r.maxArchiveRatio),
    ("backpressure_ratio", .float r.backpressureRatio),
    ("max_retention_ns", .nat r.retentionNanos), ("cleanup_frequency_ns", .nat r.cleanupNanos),
    ("max_appendable_claim_size", .nat r.maxAppendable), ("max_pooled_claims", .nat r.maxPooled),
    ("always_sync", .bool r.alwaysSync), ("destruction_interval_ns", .nat r.destructionNanos),
    ("reclaim_queue_capacity", .nat r.reclaimQueue),
    ("reclaim_offer_timeout_ns", .nat r.reclaimOfferNanos)]

/-- Resolving settings, as an answer. -/
def resolveAnswer (s : Settings) : Json :=
  match s.resolve with
  | .ok r => resolvedJson r
  | .error i => issueAnswer i

/-- A resource claim's fields. -/
def resourceJson (r : Resource) : Json :=
  obj [("container", .str r.container), ("section", .str r.sectionName), ("id", .str r.id),
    ("loss_tolerant", .bool r.lossTolerant)]

/-- A content claim's fields, its length as stored. -/
def contentJson (c : Content) : Json :=
  obj [("container", .str c.resource.container), ("section", .str c.resource.sectionName),
    ("id", .str c.resource.id), ("offset", .nat c.offset), ("length", .int c.length),
    ("loss_tolerant", .bool c.resource.lossTolerant)]

/-- Coordinates' fields. -/
def coordinatesJson (k : Coordinates) : Json :=
  obj [("container", .str k.container), ("section", .str k.sectionName), ("id", .str k.id),
    ("offset", .nat k.offset), ("length", .int k.length)]

/-- A resource claim from its fields; the container defaults to `default`. -/
def readResource (j : Json) (sectionDefault : String := "1") : Read Resource := do
  pure ⟨← textOr j "container" "default", ← textOr j "section" sectionDefault, ← text j "id",
    ← flagOr j "loss_tolerant" false⟩

/-- A lifecycle state by name. -/
def readLifecycle (j : Json) (k : String) : Read Lifecycle := do
  let s ← text j k
  match Lifecycle.ofName? s with
  | some l => pure l
  | none => throw ("unknown claim state " ++ quote s)

/-- A state change and the facts of its source state. -/
def claimStateAnswer (j : Json) : Read Json := do
  let a ← readLifecycle j "from"
  let b ← readLifecycle j "to"
  let moved := match a.moveTo b with
    | .ok s => Json.str s.name
    | .error e => claimErrorAnswer e
  pure (obj [("can_transition", .bool (a.canMoveTo b)), ("transition", moved),
    ("is_writable", .bool a.isWritable), ("is_destroyed", .bool a.isDestroyed),
    ("display", .str a.name)])

/-- A content claim from coordinates, with its views. -/
def coordinatesAnswer (j : Json) : Read Json := do
  let k : Coordinates :=
    ⟨← text j "container", ← text j "section", ← text j "id", ← count j "offset", ← signed j "length"⟩
  match k.toContent with
  | .error e => pure (claimErrorAnswer e)
  | .ok c => pure (obj [("claim", contentJson c), ("known_length", .natOrNull c.knownLength),
      ("display", .str c.display), ("debug", .str c.describe),
      ("coordinates", coordinatesJson c.coordinates),
      ("roundtrip_equal", .bool (c.coordinates == k))])

/-- Two resource claims compared. -/
def resourceClaimsAnswer (j : Json) : Read Json := do
  let a ← readResource (← need j "a")
  let b ← readResource (← need j "b")
  let order : Int := match a.compareKey b with
    | .lt => -1
    | .eq => 0
    | .gt => 1
  pure (obj [("equal", .bool (a.same b)), ("cmp", .int order), ("display_a", .str a.display),
    ("display_b", .str b.display), ("debug_a", .str a.describe)])

/-- A content claim from its fields: offset 0 by default, unknown length unless given. -/
def readContent (j : Json) : Read Content := do
  let r ← readResource j
  let offset ← countOr j "offset" 0
  match ← optional j "length" asCount with
  | some n => pure (Content.ofLength r offset n)
  | none => pure (Content.fresh r offset)

/-- The length views of a content claim. -/
def lengthViews (c : Content) : List (String × Json) :=
  [("length", .natOrNull c.knownLength), ("raw_length", .int c.length), ("display", .str c.display)]

/-- One step on a content claim's length. -/
def contentStep (c : Content) (s : Json) : Read Content := do
  match ← text s "op" with
  | "set_length" => pure (c.withLength (← count s "value"))
  | "view" => pure c
  | o => throw ("unknown step " ++ o)

/-- Runs length steps on a content claim; every copy of the claim sees the same length. -/
def contentClaimAnswer (j : Json) : Read Json := do
  let c0 ← readContent (← need j "claim")
  let other ← optional j "other" (fun _ v => readContent v)
  let steps ← list j "steps"
  let (c, answers) := steps.foldl (fun (c, acc) s =>
    match contentStep c s with
    | .ok c' => (c', acc ++ [obj (lengthViews c' ++ [("supplier", .natOrNull c'.knownLength)])])
    | .error m => (c, acc ++ [badInput m])) (c0, [])
  -- the claim and its copies share one length: every view shows the last one
  let base := [("initial", obj (lengthViews c)), ("debug", Json.str c.describe),
    ("coordinates", coordinatesJson c.coordinates), ("steps", Json.arr answers)]
  pure (obj (match other with
    | some o => base ++ [("equal_other", .bool (c0.same o))]
    | none => base))

/-- Hands out counter values one after another. -/
def idGeneratorAnswer (j : Json) : Read Json := do
  let start ← optional j "start" asCount
  let n ← count j "count"
  let (out, g) := IdCounter.draws n ⟨start.getD 0⟩
  let shown := out.map fun
    | some i => Json.nat i
    | none => failure "panic" IdCounter.overflowMessage
  pure (obj [("indices", .arr shown), ("current", .nat g.value)])

/-- A configuration file's settings, resolved. -/
def configAnswer (j : Json) : Read Json := do
  match Settings.ofToml (← text j "toml") with
  | none => pure (obj [("error", .str "ConfigToml")])
  | some s => pure (resolveAnswer s)

/-- Settings with a single container, resolved. -/
def configSingleAnswer (j : Json) : Read Json := do
  let s := Settings.single (← text j "name") (← text j "root")
  let s := match ← optional j "sections_per_container" asCount with
    | some n => { s with sections := n }
    | none => s
  pure (resolveAnswer s)

/-- Reading one quantity. -/
def quantityAnswer {α : Type} (j : Json) (parse : String → Except Issue α) (key : String)
    (enc : α → Json) : Read Json := do
  match parse (← text j "text") with
  | .ok v => pure (obj [(key, enc v)])
  | .error i => pure (issueAnswer i)

end ClaimStore.Script
