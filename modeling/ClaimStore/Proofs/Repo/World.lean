import ClaimStore.Proofs.Disk.Operations
import ClaimStore.Repo.Copy
import ClaimStore.Repo.Background
/-!
# Runs of a repository seen by its caller

A caller of a repository holds the content claims `create` handed out, in order, and the writer
of each claim it is writing. `World` is that view together with the repository's store, plus
two records no operation reads: the bytes successfully written through each claim's writer, and
the inode of the file of every resource claim the repository opened a stream on. `Step` lists
what a caller does; `World.step` runs one step on the store and updates the caller's view from
what the step answered. A clone whose copy feeds itself never returns, so the caller never
reaches a world after it: that step leaves the world as it was.

`Action.exec` runs an action on a store; the lemmas beside it evaluate the monad's plumbing.
-/

set_option autoImplicit false

namespace ClaimStore

open ClaimStore.Claim ClaimStore.FileSystem

namespace Action

/-- Runs an action on a store: its outcome and the store afterwards. -/
def exec {α : Type} (a : Action α) (s : Store) : Except StoreError α × Store := a.run.run s

variable {α β : Type} (s : Store)

@[simp] theorem exec_pure (a : α) : (pure a : Action α).exec s = (.ok a, s) := rfl

@[simp] theorem exec_throw (e : StoreError) : (throw e : Action α).exec s = (.error e, s) := rfl

theorem exec_bind (x : Action α) (f : α → Action β) :
    (x >>= f).exec s = match x.exec s with
      | (.ok a, s') => (f a).exec s'
      | (.error e, s') => (.error e, s') := by
  unfold exec
  rcases h : x.run.run s with ⟨_ | a, s'⟩
  · simp only [ExceptT.run_bind, StateT.run_bind, h]; rfl
  · simp only [ExceptT.run_bind, StateT.run_bind, h]; rfl

theorem exec_bind_ok {x : Action α} {a : α} {s' : Store} (h : x.exec s = (.ok a, s'))
    (f : α → Action β) : (x >>= f).exec s = (f a).exec s' := by
  rw [exec_bind, h]

theorem exec_bind_error {x : Action α} {e : StoreError} {s' : Store} (h : x.exec s = (.error e, s'))
    (f : α → Action β) : (x >>= f).exec s = (.error e, s') := by
  rw [exec_bind, h]

@[simp] theorem exec_repo : repo.exec s = (.ok s.repo, s) := rfl

@[simp] theorem exec_host : host.exec s = (.ok s.host, s) := rfl

@[simp] theorem exec_get : (get : Action Store).exec s = (.ok s, s) := rfl

@[simp] theorem exec_set (s' : Store) : (set s' : Action Unit).exec s = (.ok (), s') := rfl

@[simp] theorem exec_modifyRepo (f : Repo → Repo) :
    (modifyRepo f).exec s = (.ok (), { s with repo := f s.repo }) := rfl

@[simp] theorem exec_modifyHost (f : Host → Host) :
    (modifyHost f).exec s = (.ok (), { s with host := f s.host }) := rfl

@[simp] theorem exec_tracking (f : Tracker → α × Tracker) :
    (tracking f).exec s =
      (.ok (f s.repo.tracker).1, { s with repo := { s.repo with tracker := (f s.repo.tracker).2 } }) :=
  rfl

@[simp] theorem exec_track (f : Tracker → Tracker) :
    (track f).exec s = (.ok (), { s with repo := { s.repo with tracker := f s.repo.tracker } }) := rfl

@[simp] theorem exec_ofIo (r : IoResult α) :
    (ofIo r).exec s = (match r with | .ok a => .ok a | .error e => .error (.io e), s) := by
  cases r <;> rfl

theorem exec_attempt (a : Action α) :
    (attempt a).exec s = (.ok (a.exec s).1, (a.exec s).2) := rfl

end Action

end ClaimStore

namespace ClaimStore

open ClaimStore.Claim ClaimStore.FileSystem

/-- Where a claim handed out by `create` stands with its writer. -/
inductive Phase where
  /-- Not written to yet. -/
  | fresh
  /-- The caller holds its open writer. -/
  | writing (w : Writer)
  /-- Its writer has ended. -/
  | done
  deriving DecidableEq, Repr

/-- A claim handed out by `create`, with the bytes successfully written through its writer. -/
structure Handed where
  claim : ClaimRef
  sent : ByteArray
  phase : Phase

/-- A caller's view of a run: the store, the claims `create` handed out in order, and the inode
of the file of every resource claim the repository opened a stream on. -/
structure World where
  store : Store
  handed : List Handed
  files : List (ClaimKey × Nat)

/-- What a caller does next. Claims are named by their place in the list `create` handed them
out in; a step on a claim that is not there, or on a writer the caller does not hold, does
nothing. -/
inductive Step where
  | create (lossTolerant : Bool)
  | write (k : Nat)
  | send (k : Nat) (bytes : ByteArray)
  | flush (k : Nat)
  /-- Closing a writer, or dropping it. -/
  | close (k : Nat)
  | abort (k : Nat)
  | clone (original : ClaimRef) (lossTolerant : Bool)
  | importBytes (k : Nat) (bytes : ByteArray)
  | importPath (k : Nat) (source : String)
  | increment (r : Resource)
  | decrement (r : Resource)
  | remove (r : Resource)
  | archive (r : Resource)
  | destroy
  | cleanup
  | expire (container : String)
  | wait (ms : Nat)

namespace Step

/-- The resource claims the caller names are plain. -/
def PlainClaims : Step → Prop
  | .increment r | .decrement r | .remove r | .archive r => r.Plain
  | _ => True

/-- Whether the step may number a new resource claim. -/
def numbers : Step → Bool
  | .create _ | .clone _ _ => true
  | _ => false

end Step

namespace World

/-- Adds the inode of every resource claim that has a stream in the store and none noted yet. -/
def note (files : List (ClaimKey × Nat)) (s : Store) : List (ClaimKey × Nat) :=
  files ++ ((s.repo.streams.filter fun e => !files.any (·.1 == e.1)).map
    fun e => (e.1, (s.host.stream e.2).inode))

/-- The world with a new store, its files noted. -/
def after (W : World) (s : Store) : World := { W with store := s, files := note W.files s }

/-- The bytes a file source holds, as an import reads them. -/
def sourceBytes (d : Disk) (source : String) : ByteArray :=
  match (do d.openRead (← Disk.placeOf source) : IoResult Node) with
  | .ok (.file i) => d.bytes i
  | _ => .empty

/-- Where an import into a claim leaves it: done with the bytes imported, or, when it failed
after opening the claim's writer, done with nothing. -/
def imported (c : Handed) (outcome : Except StoreError Nat) (s : Store) (bytes : ByteArray) :
    Handed :=
  match outcome with
  | .ok _ => { c with sent := bytes, phase := .done }
  | .error _ =>
    if c.phase = .fresh ∧ 0 ≤ s.host.cell c.claim.cell then { c with phase := .done } else c

/-- One step of the caller. -/
def step (W : World) : Step → World
  | .create lossTolerant =>
    match (Action.create lossTolerant).exec W.store with
    | (.ok (.claim c), s) => { W.after s with handed := W.handed ++ [⟨c, .empty, .fresh⟩] }
    | (_, s) => W.after s
  | .write k =>
    match W.handed[k]? with
    | some c =>
      match (Action.write c.claim).exec W.store with
      | (.ok w, s) => { W.after s with handed := W.handed.set k { c with phase := .writing w } }
      | (.error _, s) => W.after s
    | none => W
  | .send k bytes =>
    match W.handed[k]? with
    | some ⟨c, sent, .writing w⟩ =>
      match (Action.writeWith w bytes).exec W.store with
      | (.ok (r, w'), s) =>
        let sent := match r with
          | .ok _ => sent ++ bytes
          | .error _ => sent
        { W.after s with handed := W.handed.set k ⟨c, sent, .writing w'⟩ }
      | (.error _, s) => W.after s
    | _ => W
  | .flush k =>
    match W.handed[k]? with
    | some ⟨c, sent, .writing w⟩ =>
      { W with handed := W.handed.set k ⟨c, sent, .writing (w.flush W.store.host).2⟩ }
    | _ => W
  | .close k =>
    match W.handed[k]? with
    | some ⟨c, sent, .writing w⟩ =>
      let s := ((Action.endWriter w Writer.finish).exec W.store).2
      { W.after s with handed := W.handed.set k ⟨c, sent, .done⟩ }
    | _ => W
  | .abort k =>
    match W.handed[k]? with
    | some ⟨c, sent, .writing w⟩ =>
      let s := ((Action.endWriter w Writer.abort).exec W.store).2
      { W.after s with handed := W.handed.set k ⟨c, sent, .done⟩ }
    | _ => W
  | .clone original lossTolerant =>
    match (Action.clone original lossTolerant).exec W.store with
    | (.ok (.endless ..), _) => W
    | (_, s) => W.after s
  | .importBytes k bytes =>
    match W.handed[k]? with
    | some c =>
      let (outcome, s) := (Action.importBytes c.claim bytes).exec W.store
      { W.after s with handed := W.handed.set k (imported c outcome s bytes) }
    | none => W
  | .importPath k source =>
    match W.handed[k]? with
    | some c =>
      let bytes := sourceBytes W.store.host.disk source
      let (outcome, s) := (Action.importPath c.claim source).exec W.store
      { W.after s with handed := W.handed.set k (imported c outcome s bytes) }
    | none => W
  | .increment r => W.after ((Action.tracking (·.increment r false)).exec W.store).2
  | .decrement r => W.after ((Action.tracking (·.decrement r)).exec W.store).2
  | .remove r => W.after ((Action.removeResource r).exec W.store).2
  | .archive r => W.after ((Action.archive r).exec W.store).2
  | .destroy => W.after (Action.runDestruction.exec W.store).2
  | .cleanup => W.after (Action.cleanup.exec W.store).2
  | .expire name => W.after ((Action.expireNow name).exec W.store).2
  | .wait ms => W.after ((Action.pass ms).exec W.store).2

/-- A run of steps. -/
def run (W : World) (steps : List Step) : World := steps.foldl step W

end World

end ClaimStore
