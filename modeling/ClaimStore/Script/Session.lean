import ClaimStore.Repo.Copy
import ClaimStore.Repo.Background
import ClaimStore.Repo.Open
import ClaimStore.Script.Settings
import ClaimStore.Script.Claims
import ClaimStore.Script.Gate
/-!
# Repository sessions

A session drives one repository on a host, from settings, a probe and a tracker's capacity. The
steps refer to content claims, writers and readers by handles: the numbers 0, 1, ... in the
order they were handed out. Reopening drops the repository (which shuts it down) and opens
another on the same directories with a fresh tracker; a writer of an earlier repository then
writes through a closed stream and its close hook does nothing. When reopening fails there is
no repository until the next reopening.

A repository opened on its own, rather than with the session's tracker and probe, makes its own
tracker and reads the real disk, which never reports back-pressure here.
-/

namespace ClaimStore.Script

open ClaimStore.Text ClaimStore.Claim ClaimStore.Config ClaimStore.FileSystem

/-- A repository error as an answer. -/
def storeAnswer (e : StoreError) : Json :=
  match e with
  | .io i => obj [("error", .str "Io"), ("io_kind", .str i.kind), ("message", .str e.message)]
  | _ => failure e.kind e.message

/-- An answer with more fields. -/
def withFields (j : Json) (more : List (String × Json)) : Json :=
  match j with
  | .obj fields => .obj (fields ++ more)
  | other => other

/-- The probe of a repository that reads the real disk. -/
def diskProbe : Probe.Script := {}

/-- A repository session. -/
structure RepoSession where
  /-- The repository, unless reopening failed. -/
  repo : Option Repo
  host : Host
  settings : Resolved
  /-- The probe the session hands to a repository. -/
  probe : Probe.Script
  trackerCapacity : Nat
  /-- Whether the repository runs background work. -/
  background : Bool
  /-- Whether the session supplies the tracker and the probe. -/
  own : Bool
  claims : Array ClaimRef
  /-- Open writers, each with the number of the repository it was opened on. -/
  writers : Array (Option (Writer × Nat))
  readers : Array (Option Reading)
  /-- How many times the repository was reopened. -/
  generation : Nat

namespace RepoSession

/-- Runs an action on a repository of the session. -/
def run {α : Type} (s : RepoSession) (r : Repo) (a : Action α) : Except StoreError α × RepoSession :=
  let (x, st) := (a.run).run ⟨r, s.host⟩
  (x, { s with repo := some st.repo, host := st.host })

/-- Runs an action and answers its outcome, or its error. -/
def answer {α : Type} (s : RepoSession) (r : Repo) (a : Action α)
    (k : α → RepoSession → Json) : Json × RepoSession :=
  match s.run r a with
  | (.ok v, s) => (k v s, s)
  | (.error e, s) => (storeAnswer e, s)

/-- Opens a repository on the session's host. -/
def launch (s : RepoSession) : Except StoreError Unit × RepoSession :=
  let tracker := Tracker.empty (if s.own then s.trackerCapacity else Tracker.defaultCapacity)
  let probe := if s.own then s.probe else diskProbe
  match Repo.launch s.settings tracker probe.probe s.background s.host with
  | (.ok r, h) => (.ok (), { s with repo := some r, host := h })
  | (.error e, h) => (.error e, { s with repo := none, host := h })

/-- Drops the repository, lets three milliseconds pass and opens another one. -/
def reopen (s : RepoSession) : Except StoreError Unit × RepoSession :=
  let s := match s.repo with
    | some r => (s.run r Action.shutdown).2
    | none => s
  launch { s with host := { s.host with now := s.host.now + 3 }, generation := s.generation + 1 }

/-- A claim's fields as they stand. -/
def claimJson (s : RepoSession) (c : ClaimRef) : Json := contentJson (s.host.content c)

/-- Hands out a handle for a claim. -/
def addClaim (s : RepoSession) (c : ClaimRef) : Nat × RepoSession :=
  (s.claims.size, { s with claims := s.claims.push c })

/-- A claim and its handle as an answer. -/
def handOut (s : RepoSession) (c : ClaimRef) : Json × RepoSession :=
  let (n, s) := s.addClaim c
  (obj [("c", .nat n), ("claim", s.claimJson c)], s)

/-- The claim of the handle in the field `c`. -/
def claimAt (s : RepoSession) (j : Json) : Read ClaimRef := do
  let n ← count j "c"
  match s.claims[n]? with
  | some c => pure c
  | none => throw ("no claim handle " ++ toString n)

/-- Whether a claim's section or id could leave its directory. -/
def unsafePart (v : String) : Bool :=
  v == "." || v == ".." || v.any fun c => c == '/' || c == '\\' || c == '\x00'

/-- Checks that a resource claim stays inside its container. -/
def checkResource (r : Resource) : Read Unit := do
  if unsafePart r.sectionName then throw ("unsafe claim section " ++ quote r.sectionName)
  if r.id.isEmpty || unsafePart r.id then throw ("unsafe claim id " ++ quote r.id)

/-- A resource claim written out in a request. -/
def readSafeResource (j : Json) : Read Resource := do
  let r ← readResource j "0"
  checkResource r
  pure r

/-- The resource claim of the handle in `c`, or the one written out in `resource`. -/
def resourceAt (s : RepoSession) (j : Json) : Read Resource := do
  if (opt j "c").isSome then return (← s.claimAt j).resource
  readSafeResource (← need j "resource")

/-- The writer of the handle in the field `w`, with its handle and repository number. -/
def writerAt (s : RepoSession) (j : Json) : Read (Nat × Writer × Nat) := do
  let n ← count j "w"
  match s.writers[n]? with
  | some (some (w, g)) => pure (n, w, g)
  | _ => throw ("no open writer " ++ toString n)

/-- Hands out a handle for a writer of the current repository. -/
def addWriter (s : RepoSession) (w : Writer) : Nat × RepoSession :=
  (s.writers.size, { s with writers := s.writers.push (some (w, s.generation)) })

/-- Puts a writer back under its handle. -/
def keepWriter (s : RepoSession) (n : Nat) (w : Writer) (g : Nat) : RepoSession :=
  { s with writers := s.writers.set! n (some (w, g)) }

/-- Takes a writer's handle away. -/
def dropHandle (s : RepoSession) (n : Nat) : RepoSession :=
  { s with writers := s.writers.set! n none }

/-- Ends a writer by `finish`. The close hook is the repository's while the writer belongs to
the current one, and does nothing otherwise. -/
def endWriter (s : RepoSession) (w : Writer) (g : Nat)
    (finish : Writer → Host → Option (IoResult Unit × Bool) × Writer) : IoResult Unit × RepoSession :=
  match s.repo with
  | some r =>
    if g == s.generation then
      match s.run r (Action.endWriter w finish) with
      | (.ok res, s) => (res, s)
      | (.error _, s) => (.ok (), s)
    else
      ((finish w s.host).1.elim (.ok ()) (·.1), s)
  | none => ((finish w s.host).1.elim (.ok ()) (·.1), s)

/-- The reader of the handle in the field `r`, with its handle. -/
def readerAt (s : RepoSession) (j : Json) : Read (Nat × Reading) := do
  let n ← count j "r"
  match s.readers[n]? with
  | some (some rd) => pure (n, rd)
  | _ => throw ("no reader " ++ toString n)

/-- Hands out a handle for a reader. -/
def addReader (s : RepoSession) (rd : Reading) : Nat × RepoSession :=
  (s.readers.size, { s with readers := s.readers.push (some rd) })

/-- The answer of a create that would wait: the caller gives up after 400 ms, meanwhile the
background work goes on, and then shuts the repository down, which releases the wait. -/
def blocked (s : RepoSession) : Json × RepoSession :=
  let s := match s.repo with
    | some r => (s.run r (do Action.pass 400; Action.shutdown)).2
    | none => s
  (withFields (storeAnswer .shutdown) [("blocked", .bool true)], s)

/-- The answer of a clone whose copy never ends: the caller gives up after 400 ms, meanwhile the
background work goes on, and then shuts the repository down. The copy's next write then fails,
its writer is aborted and the clone rolled back. -/
def endlessClone (s : RepoSession) (copy : ClaimRef) (rd : Reading) (w : Writer) :
    Json × RepoSession :=
  match s.repo with
  | some r =>
    match s.run r (do Action.pass 400; Action.shutdown; Action.resumeClone copy rd w) with
    | (.ok (), s) =>
      let (j, s) := s.handOut copy
      (withFields j [("blocked", .bool true)], s)
    | (.error e, s) => (withFields (storeAnswer e) [("blocked", .bool true)], s)
  | none => (withFields (storeAnswer .shutdown) [("blocked", .bool true)], s)

end RepoSession

end ClaimStore.Script
