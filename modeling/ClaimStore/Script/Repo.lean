import ClaimStore.Script.Transfer
/-!
# Repository sessions as answers

The remaining steps of a repository session: handing out claims and counting their claimants,
destroying and cleaning up, looking at the repository, and waiting for its background work.
Steps on the scratch directory, probe changes and reopening work without a repository; every
other step needs one.

A wait polls its condition every two milliseconds until it holds or the timeout (800 ms unless
given, 900 ms at most) has passed, while time moves on for the background work.
-/

namespace ClaimStore.Script

open ClaimStore.Text ClaimStore.Claim ClaimStore.Config ClaimStore.FileSystem

namespace RepoSession

/-- A destruction report as an answer. -/
def destructionJson (d : Destruction) : Json :=
  obj [("archived", .nat d.archived), ("removed", .nat d.removed), ("skipped", .nat d.skipped),
    ("failed", .nat d.failed), ("total", .nat d.total)]

/-- A cleanup report as an answer. -/
def cleanupJson (c : Cleanup) : Json :=
  obj [("scanned", .nat c.scanned), ("archived", .nat c.archived), ("removed", .nat c.removed),
    ("failed", .nat c.failed)]

/-- A resource claim's text with its fields in name order and clock values masked: the order
in which claims are listed. -/
def listingKey (r : Resource) : String :=
  (maskClock (obj [("container", .str r.container), ("id", .str r.id),
    ("loss_tolerant", .bool r.lossTolerant), ("section", .str r.sectionName)])).compact

/-- Resource claims as an answer, in the order of their listing keys. -/
def claimsJson (cs : List Resource) : Json :=
  let sorted := cs.mergeSort fun a b => decide (listingKey a ≤ listingKey b)
  obj [("claims", .arr (sorted.map resourceJson))]

/-- Steps that hand out claims and count their claimants. -/
def claimStep (s : RepoSession) (r : Repo) (op : String) (j : Json) : Option Reply :=
  match op with
  | "create" => some do
    let lossTolerant ← flagOr j "loss_tolerant" false
    pure (match s.run r (Action.create lossTolerant) with
      | (.ok (.claim c), s) => s.handOut c
      | (.ok .blocked, s) => s.blocked
      | (.error e, s) => (storeAnswer e, s))
  | "clone" => some do
    let c ← s.claimAt j
    let lossTolerant ← flagOr j "loss_tolerant" false
    pure (match s.run r (Action.clone c lossTolerant) with
      | (.ok (.claim copy), s) => s.handOut copy
      | (.ok .blocked, s) => s.blocked
      | (.ok (.endless copy rd w), s) => s.endlessClone copy rd w
      | (.error e, s) => (storeAnswer e, s))
  | "claim" => some do
    let res ← match opt j "like" with
      | some v => do
        let n ← asCount "like" v
        match s.claims[n]? with
        | some c => pure c.resource
        | none => throw ("no claim handle " ++ toString n)
      | none => readSafeResource j
    let offset ← countOr j "offset" 0
    let length ← optional j "length" asCount
    let (cell, h) := s.host.newCell ((length.map signed64).getD (-1))
    pure ({ s with host := h }.handOut ⟨res, offset, cell⟩)
  | "view" => some do pure (s.claimJson (← s.claimAt j), s)
  | "claimant_count" => some do
    let res ← s.resourceAt j
    pure (obj [("count", .nat (r.tracker.claimants res))], s)
  | "increment" => some do
    let res ← s.resourceAt j
    pure (s.answer r (Action.tracking (·.increment res false)) fun n _ => obj [("count", .nat n)])
  | "decrement" => some do
    let res ← s.resourceAt j
    pure (s.answer r (Action.tracking (·.decrement res)) fun n _ => obj [("count", .nat n)])
  | "claim_state" => some do
    let res ← s.resourceAt j
    pure (obj [("state", .str (r.tracker.state res).name), ("in_use", .bool (r.tracker.inUse res))], s)
  | "freeze" => some do
    let res ← s.resourceAt j
    pure (s.answer r (Action.tracking (·.freeze res)) fun b _ => obj [("frozen", .bool b)])
  | "mark_destructable" => some do
    let res ← s.resourceAt j
    pure (s.answer r (Action.track (·.markDestructable res)) fun _ _ => done)
  | "remove" | "remove_resource" => some do
    let res ← s.resourceAt j
    pure (s.answer r (Action.removeResource res) fun b _ => obj [("removed", .bool b)])
  | "archive" => some do
    let res ← s.resourceAt j
    pure (s.answer r (Action.archive res) fun b _ => obj [("moved", .bool b)])
  | _ => none

/-- Steps on the repository as a whole. -/
def upkeepStep (s : RepoSession) (r : Repo) (op : String) (j : Json) : Option Reply :=
  match op with
  | "run_destruction" => some do pure (s.answer r Action.runDestruction fun d _ => destructionJson d)
  | "run_expiration" => some do
    let name ← text j "container"
    pure (s.answer r (Action.expireNow name)
      fun e _ => obj (expiryFields e ++ [("deleted", .nat e.deleted)]))
  | "cleanup" => some do pure (s.answer r Action.cleanup fun c _ => cleanupJson c)
  | "active" => some do
    let name ← text j "container"
    pure (s.answer r (Action.activeClaims name) fun cs _ => claimsJson cs)
  | "purge" => some do pure (s.answer r Action.purge fun _ _ => done)
  | "container_names" => some do
    pure (obj [("names", .arr (r.containers.map fun c => .str c.name))], s)
  | "capacity" => some do
    let name ← text j "container"
    pure (s.answer r (Action.capacityOf name) fun n _ => obj [("capacity", .nat n)])
  | "usable" => some do
    let name ← text j "container"
    pure (s.answer r (Action.usableOf name) fun n _ => obj [("usable", .nat n)])
  | "archived_count" => some do
    let name ← text j "container"
    pure (s.answer r (Action.archivedCount name) fun n _ => obj [("count", .nat n)])
  | "shutdown" => some do pure (s.answer r Action.shutdown fun _ _ => done)
  | "is_shut_down" => some do pure (obj [("shut_down", .bool r.shutDown)], s)
  | "debug" => some do pure (obj [("debug", .str r.describe)], s)
  | "tracker_stats" => some do
    unless s.own do throw "tracker_stats needs the driver's own tracker"
    pure (obj [("tracked", .nat r.tracker.tracked), ("pending", .nat r.tracker.pending)], s)
  | "config" => some do pure (resolvedJson s.settings, s)
  | _ => none

/-- The condition a wait polls for. -/
def readCondition (s : RepoSession) (j : Json) : Read (Action Bool) := do
  match ← text j "until" with
  | "archived_count" =>
    let name ← text j "container"
    let value ← count j "value"
    pure do pure (((← Action.attempt (Action.archivedCount name)).toOption.getD 0) ≥ value)
  | "accessible" =>
    let c ← s.claimAt j
    pure (Action.isAccessible c.resource)
  | "not_accessible" =>
    let c ← s.claimAt j
    pure do pure !(← Action.isAccessible c.resource)
  | "claimant_state" =>
    let res ← s.resourceAt j
    let state ← readLifecycle j "state"
    pure do pure ((← Action.repo).tracker.state res == state)
  | "live_count" =>
    let name ← text j "container"
    let value ← count j "value"
    pure do pure ((← Action.activeClaims name).length == value)
  | "pending_zero" => pure do pure ((← Action.repo).tracker.pending == 0)
  | other => throw ("unknown condition " ++ other)

end RepoSession

/-- Polls a condition every two milliseconds until it holds or `timeout` milliseconds have
passed since `elapsed`, with `fuel` polls at most. -/
def Action.waitFor (cond : Action Bool) (timeout : Nat) : Nat → Nat → Action Bool
  | _, 0 => cond
  | elapsed, fuel + 1 => do
    if ← cond then return true
    if elapsed ≥ timeout then return false
    Action.pass 2
    Action.waitFor cond timeout (elapsed + 2) fuel

namespace RepoSession

/-- Answers one step. -/
def step (s : RepoSession) (j : Json) : Reply := do
  let op ← text j "op"
  match fileStep s.host.disk s.host.now op j with
  | some reply => let (a, d) ← reply; pure (a, { s with host := { s.host with disk := d } })
  | none =>
  match op with
  | "set_probe" =>
    let p ← readProbe j s.probe
    let shared := if s.own then s.repo.map fun r => { r with probe := p.probe } else s.repo
    pure (done, { s with probe := p, repo := shared })
  | "reopen" =>
    pure (match s.reopen with
      | (.ok (), s) => (done, s)
      | (.error e, s) => (storeAnswer e, s))
  | _ =>
  let some r := s.repo | pure (obj [("error", .str "NoRepository")], s)
  match s.claimStep r op j <|> s.writerStep r op j <|> s.readStep r op j <|>
      s.upkeepStep r op j with
  | some reply => reply
  | none =>
  match op with
  | "wait" =>
    let cond ← s.readCondition j
    let timeout := min (← countOr j "timeout_ms" 800) 900
    pure (s.answer r (Action.waitFor cond timeout 0 (timeout / 2 + 1))
      fun b _ => obj [("reached", .bool b)])
  | other => throw ("unknown step " ++ other)

end RepoSession

/-- A repository session as an answer. -/
def repoAnswer (j : Json) : Read Json := do
  let settings ← readSettings ((opt j "config").getD (.obj []))
  let probe ← readProbeField j "probe"
  let capacity ← countOr j "tracker_capacity" Tracker.defaultCapacity
  let daemons ← flagOr j "daemons" false
  let opened ← flagOr j "open" false
  let steps ← list j "steps"
  match ← writeFiles j Disk.fresh startMillis with
  | .error e => pure (ioAnswer e)
  | .ok d =>
    match settings.resolve with
    | .error i => pure (issueAnswer i)
    | .ok resolved =>
      let s : RepoSession :=
        { repo := none, host := Host.create d startMillis, settings := resolved, probe,
          trackerCapacity := capacity, background := daemons || opened, own := !opened,
          claims := #[], writers := #[], readers := #[], generation := 0 }
      match s.launch with
      | (.error e, _) => pure (storeAnswer e)
      | (.ok (), s) => pure (results (runSteps RepoSession.step s steps))

end ClaimStore.Script
