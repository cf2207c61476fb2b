import ClaimStore.Script.Session
import ClaimStore.Script.Container
import ClaimStore.Script.Streams
/-!
# Repository steps that move bytes

Writing claims, through writers the step ends at once or hands out, and reading, exporting and
importing their bytes. A writer's own failures are answered as they are, without the prefix of
the repository's errors.
-/

namespace ClaimStore.Script

open ClaimStore.Text ClaimStore.Claim ClaimStore.Config ClaimStore.FileSystem

namespace RepoSession

/-- A step's answer and the session after it, or a malformed step. -/
abbrev Reply := Read (Json × RepoSession)

/-- Writes chunks through a writer, stopping at the first failure; an empty chunk makes no
write. -/
def writeChunks (h : Host) (w : Writer) : List ByteArray → Option IoError × Writer × Host
  | [] => (none, w, h)
  | bs :: rest =>
    if bs.isEmpty then writeChunks h w rest
    else match w.write h bs with
      | (.error e, w, h) => (some e, w, h)
      | (.ok _, w, h) => writeChunks h w rest

/-- The chunks of a write: the list in `chunks`, or the step's own payload. -/
def readChunks (j : Json) : Read (List ByteArray) := do
  match opt j "chunks" with
  | some v => (← asList "chunks" v).mapM readPayload
  | none => pure [← readPayload j]

/-- Writes a claim through a writer and ends the writer by `mode`: `close`, `abort`, `drop`, or
`keep` to hand the writer out. -/
def writeStep (s : RepoSession) (r : Repo) (j : Json) : Reply := do
  let c ← s.claimAt j
  let chunks ← readChunks j
  let mode ← textOr j "mode" "close"
  unless ["close", "abort", "drop", "keep"].contains mode do throw ("unknown mode " ++ mode)
  match s.run r (Action.write c) with
  | (.error e, s) => pure (storeAnswer e, s)
  | (.ok w, s) =>
    let (failed, w, h) := writeChunks s.host w chunks
    let s := { s with host := h }
    let g := s.generation
    match failed with
    | some e =>
      let (_, s) := s.endWriter w g Writer.finish
      pure (withFields (ioAnswer e) [("stage", .str "write"), ("written", .nat w.written)], s)
    | none =>
      let report : RepoSession → Json := fun s =>
        obj [("written", .nat w.written), ("claim", s.claimJson c)]
      match mode with
      | "close" =>
        match s.endWriter w g Writer.finish with
        | (.error e, s) => pure (withFields (ioAnswer e) [("stage", .str "close")], s)
        | (.ok (), s) => pure (report s, s)
      | "abort" => let (_, s) := s.endWriter w g Writer.abort; pure (report s, s)
      | "drop" => let (_, s) := s.endWriter w g Writer.finish; pure (report s, s)
      | _ =>
        let (n, s) := s.addWriter w
        pure (withFields (report s) [("w", .nat n)], s)

/-- Steps on writers. -/
def writerStep (s : RepoSession) (r : Repo) (op : String) (j : Json) : Option Reply :=
  match op with
  | "write" => some (s.writeStep r j)
  | "open_writer" => some do
    let c ← s.claimAt j
    pure (match s.run r (Action.write c) with
      | (.ok w, s) => let (n, s) := s.addWriter w; (obj [("w", .nat n)], s)
      | (.error e, s) => (storeAnswer e, s))
  | "writer_write" => some do
    let (n, w, g) ← s.writerAt j
    let bytes ← readPayload j
    let (res, w, h) := if bytes.isEmpty then (.ok 0, w, s.host) else w.write s.host bytes
    let s := { s.keepWriter n w g with host := h }
    pure (match res with
      | .error e => (ioAnswer e, s)
      | .ok _ => (obj [("written", .nat w.written), ("claim", s.claimJson w.claim)], s))
  | "writer_flush" => some do
    let (n, w, g) ← s.writerAt j
    let (res, w) := w.flush s.host
    pure (unitAnswer res, s.keepWriter n w g)
  | "writer_close" => some do
    let (n, w, g) ← s.writerAt j
    let (res, s) := (s.dropHandle n).endWriter w g Writer.finish
    pure (unitAnswer res, s)
  | "writer_abort" => some do
    let (n, w, g) ← s.writerAt j
    pure (done, ((s.dropHandle n).endWriter w g Writer.abort).2)
  | "writer_drop" => some do
    let (n, w, g) ← s.writerAt j
    pure (done, ((s.dropHandle n).endWriter w g Writer.finish).2)
  | "writer_debug" => some do
    let (_, w, _) ← s.writerAt j
    pure (obj [("debug", .str (w.describe s.host)), ("claim", s.claimJson w.claim)], s)
  | _ => none

/-- Bytes and how many were copied. -/
def copiedFields (bs : ByteArray) : Json := obj (payloadFields bs ++ [("copied", .nat bs.size)])

/-- Steps that read, export or import bytes. -/
def readStep (s : RepoSession) (r : Repo) (op : String) (j : Json) : Option Reply :=
  match op with
  | "read" => some do
    let c ← s.claimAt j
    pure (match s.run r (Action.read c) with
      | (.error e, s) => (storeAnswer e, s)
      | (.ok rd, s) =>
        match rd.readToEnd s.host with
        | .error e => (ioAnswer e, s)
        | .ok (bs, _) => (obj (payloadFields bs), s))
  | "open_reader" => some do
    let c ← s.claimAt j
    pure (match s.run r (Action.read c) with
      | (.ok rd, s) => let (n, s) := s.addReader rd; (obj [("r", .nat n)], s)
      | (.error e, s) => (storeAnswer e, s))
  | "reader_read" => some do
    let (n, rd) ← s.readerAt j
    let max ← count j "max"
    pure (match rd.read s.host max with
      | .error e => (ioAnswer e, s)
      | .ok (bs, rd) =>
        (obj (payloadFields bs ++ [("consumed", .nat rd.reader.consumed)]),
          { s with readers := s.readers.set! n (some rd) }))
  | "reader_debug" => some do
    let (_, rd) ← s.readerAt j
    pure (obj [("debug", .str (rd.describe s.host))], s)
  | "read_error" => some do
    let c ← s.claimAt j
    pure (match s.run r (Action.read c) with
      | (.ok _, s) => (done, s)
      | (.error e, s) =>
        (obj [("content_not_found", .bool e.isContentNotFound), ("error", storeAnswer e)], s))
  | "size" => some do
    let c ← s.claimAt j
    pure (s.answer r (Action.size c) fun n _ => obj [("size", .nat n)])
  | "size_of_resource" => some do
    let res ← s.resourceAt j
    pure (s.answer r (Action.sizeOfResource res) fun n _ => obj [("size", .nat n)])
  | "is_accessible" => some do
    let c ← s.claimAt j
    pure (s.answer r (Action.isAccessible c.resource) fun b _ => obj [("accessible", .bool b)])
  | "export" => some do
    let c ← s.claimAt j
    pure (s.answer r (Action.exportAll c) fun bs _ => copiedFields bs)
  | "export_range" => some do
    let c ← s.claimAt j
    let offset ← count j "offset"
    let length ← count j "length"
    pure (s.answer r (Action.exportRange c offset length) fun bs _ => copiedFields bs)
  | "export_to_path" => some do
    let c ← s.claimAt j
    let dest ← readScratchPath j "dest"
    let append ← flagOr j "append" false
    pure (s.answer r (Action.exportToPath c dest append) fun n _ => obj [("copied", .nat n)])
  | "export_to_path_range" => some do
    let c ← s.claimAt j
    let dest ← readScratchPath j "dest"
    let append ← flagOr j "append" false
    let offset ← count j "offset"
    let length ← count j "length"
    pure (s.answer r (Action.exportRangeToPath c dest append offset length)
      fun n _ => obj [("copied", .nat n)])
  | "import" => some do
    let c ← s.claimAt j
    let bytes ← readPayload j
    pure (s.answer r (Action.importBytes c bytes)
      fun n s => obj [("copied", .nat n), ("claim", s.claimJson c)])
  | "import_path" => some do
    let c ← s.claimAt j
    let path ← readScratchPath j "path"
    pure (s.answer r (Action.importPath c path)
      fun n s => obj [("copied", .nat n), ("claim", s.claimJson c)])
  | _ => none

end RepoSession

end ClaimStore.Script
