import ClaimStore.Script.Claims
import ClaimStore.Script.Queue
import ClaimStore.Script.Tracking
import ClaimStore.Script.Gate
import ClaimStore.Script.Reading
import ClaimStore.Script.Container
import ClaimStore.Script.Streams
import ClaimStore.Script.Scheduling
import ClaimStore.Script.Repo
import ClaimStore.Script.Cli
/-!
# Answering requests

A request names its operation in the field `op`; the answer is the operation's JSON value, or an
error object for a malformed request.
-/

namespace ClaimStore.Script

open ClaimStore.Text ClaimStore.Config ClaimStore.Claim

/-- The answer to one request. -/
def answer (j : Json) : Json := orBad do
  let op ← text j "op"
  match op with
  | "parse_percentage" => quantityAnswer j parsePercentage "value" .float
  | "parse_duration" => quantityAnswer j parseDuration "nanos" .nat
  | "parse_data_size" => quantityAnswer j parseDataSize "bytes" .nat
  | "config" => configAnswer j
  | "config_single" => configSingleAnswer j
  | "format_claim_id" => pure (obj [("id", .str (formatId (← count j "timestamp") (← count j "index")))])
  | "creation_millis" => pure (obj [("millis", .natOrNull (creationMillis? (← text j "id")))])
  | "claim_state" => claimStateAnswer j
  | "coordinates" => coordinatesAnswer j
  | "resource_claims" => resourceClaimsAnswer j
  | "content_claim" => contentClaimAnswer j
  | "id_generator" => idGeneratorAnswer j
  | "queue" => queueAnswer j
  | "tracker" => trackerAnswer j
  | "container_state" => gateAnswer j
  | "limited_reader" => readerAnswer j
  | "archive_path" => archivePathAnswer j
  | "archive_info" => archiveInfoAnswer j
  | "container" => containerAnswer j
  | "claim_stream" => streamAnswer j
  | "scheduler" => schedulerAnswer j
  | "content_writer" => writerAnswer j
  | "repo" => repoAnswer j
  | "cli" => cliAnswer j
  | _ => throw ("unknown op " ++ op)

/-- The answer to one request as printed: clock values masked. -/
def respond (j : Json) : Json := maskClock (answer j)

end ClaimStore.Script
