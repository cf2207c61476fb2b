import ClaimStore.Reader
import ClaimStore.Archive
import ClaimStore.Script.Payload
/-!
# Reader sessions and archive locations

A reader session reads a payload through a limited reader whose limit the steps may change.
The archive requests answer where a path would be archived and what an archive entry records.
-/

namespace ClaimStore.Script

open ClaimStore.Text

/-- A reader over a payload, with the limit in force. -/
structure ReaderSession where
  source : ByteArray
  reader : Reader
  limit : Option Nat

/-- A delivery as an answer: the bytes and the count delivered so far. -/
def deliveryAnswer (bs : ByteArray) (r : Reader) : Json :=
  obj (payloadFields bs ++ [("consumed", .nat r.consumed)])

/-- Answers one step of a reader session. -/
def readerStep (s : ReaderSession) (j : Json) : Read (Json × ReaderSession) := do
  match ← text j "op" with
  | "read" =>
    let (bs, r) := s.reader.read s.source s.limit (← count j "max")
    pure (deliveryAnswer bs r, { s with reader := r })
  | "read_to_end" =>
    let (bs, r) := s.reader.readToEnd s.source s.limit
    pure (deliveryAnswer bs r, { s with reader := r })
  | "set_limit" => pure (done, { s with limit := ← optional j "value" asCount })
  | "consumed" => pure (obj [("consumed", .nat s.reader.consumed)], s)
  | "debug" => pure (obj [("debug", .str (s.reader.describe s.limit))], s)
  | other => throw ("unknown step " ++ other)

/-- A reader session as an answer. -/
def readerAnswer (j : Json) : Read Json := do
  let source ← readPayload j
  let limit ← optional j "limit" asCount
  let steps ← list j "steps"
  pure (results (runSteps readerStep ⟨source, Reader.start, limit⟩ steps))

/-- Where a path would be archived. -/
def archivePathAnswer (j : Json) : Read Json := do
  let p ← text j "path"
  pure (obj [("is_archived", .bool (Archive.isArchived p)),
    ("archive_path", match Archive.pathFor? p with
      | some q => .str q
      | none => .null)])

/-- An archive entry's fields. -/
def archiveInfoAnswer (j : Json) : Read Json := do
  let e := Archive.Entry.create (← text j "root") (← text j "path") (← count j "size")
    (← count j "last_modified")
  pure (obj [("relative_path", .str e.relative), ("name", .str e.name), ("path", .str e.path),
    ("size", .nat e.size), ("last_modified", .nat e.lastModified)])

end ClaimStore.Script
