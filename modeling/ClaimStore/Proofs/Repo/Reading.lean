import ClaimStore.Proofs.Repo.Runs
import ClaimStore.Proofs.Expiry.Sweeping
/-!
# Reading a claim back

A claim is read from the file of its resource claim: at the live place, or at the archive place
when the live one holds nothing. In every world a caller reaches, both places hold nothing or
that one file (`Placed`), and a handed-out claim's bytes lie in the file at its offset, with its
length cell telling how many once its writer was taken (`Handed.Stored`). A cell that tells
nothing (the claim was not written to yet, or is too long for the cell) goes with a claim that
ends where its file ends.

So a claim reads back as exactly the bytes written through its writer, and its size is their
count, as long as either place holds anything: whatever was appended to the same file after it,
and whether its writer is still open or has ended. Main statement: `read_returns_written`.
-/

set_option autoImplicit false

namespace ClaimStore.FileSystem.Disk

variable {d : Disk} {p : Place}

theorem openRead_of_some (hs : d.Sound) {n : Node} (h : d.node? p = some n) :
    d.openRead p = .ok n := by
  simp [openRead, lookup, hs.reach h, h, bind, Except.bind, pure, Except.pure]

theorem openRead_of_none (hr : d.reach p = .ok ()) (h : d.node? p = none) :
    d.openRead p = .error .notFound := by
  simp [openRead, lookup, hr, h, bind, Except.bind, pure, Except.pure, throw, throwThe,
    MonadExceptOf.throw]

theorem nodeAt?_of_place? (hs : d.Sound) {t : String} (h : place? t = some p) :
    d.nodeAt? t = d.node? p := by
  unfold nodeAt?
  rw [h]
  cases hp : d.node? p with
  | some n =>
    simp [stat, lookup, hs.reach hp, hp, bind, Except.bind, pure, Except.pure, Except.toOption]
  | none =>
    unfold stat lookup
    cases hr : d.reach p <;>
      simp [hr, hp, bind, Except.bind, pure, Except.pure, throw, throwThe, MonadExceptOf.throw,
        Except.toOption]

theorem Sound.reach_live (hs : d.Sound) {r : Claim.Resource} {n : Node}
    (h : d.node? (archivePlace p r) = some n) : d.reach (livePlace p r) = .ok () := by
  rw [reach_eq_ok]
  intro k _ hk
  have hlen : (livePlace p r).length = p.length + 2 := by simp [livePlace]
  have htake : (livePlace p r).take k = (archivePlace p r).take k := by
    simp only [livePlace, archivePlace, List.take_append]
    rcases (show k - p.length = 0 ∨ k - p.length = 1 by omega) with h0 | h1
    · simp [h0]
    · simp [h1]
  rw [htake]
  exact hs.above _ n h k (by simp [archivePlace]; omega)

theorem node?_of_deeper {q : Place} (hq : q ≠ []) (h : ∀ e ∈ d.nodes, e.1.length < q.length) :
    d.node? q = none := by
  rw [node?_of_ne_nil _ hq, Option.map_eq_none_iff, List.find?_eq_none]
  intro e he heq
  have := h e he
  rw [beq_iff_eq.1 heq] at this
  exact Nat.lt_irrefl _ this

end ClaimStore.FileSystem.Disk

namespace ClaimStore.Reading

variable {h : Host} {i off cell : Nat}

theorem readToEnd_of_length {L : Nat} (hl : h.cell cell = L)
    (hfit : off + L ≤ (h.disk.bytes i).size) :
    ∃ r, (⟨.file i, Reader.start off, cell⟩ : Reading).readToEnd h =
      .ok ((h.disk.bytes i).extract off (off + L), r) := by
  have hlim : (⟨.file i, Reader.start off, cell⟩ : Reading).limit h = some L := by
    simp [limit, hl]
  unfold readToEnd read
  simp only [hlim, Reader.window, Reader.read]
  simp only [Reader.start, Nat.sub_zero, Nat.zero_add]
  split
  · -- a read with nothing left to deliver: the length is zero, or so is the file
    refine ⟨_, congrArg (fun b => Except.ok (b, _)) ?_⟩
    rw [eq_comm, ByteArray.extract_eq_empty_iff]
    omega
  · rw [show min (min (h.disk.bytes i).size L) ((h.disk.bytes i).size - off) = L by omega]
    exact ⟨_, rfl⟩

theorem readToEnd_of_unknown (hl : h.cell cell < 0) (hoff : off ≤ (h.disk.bytes i).size) :
    ∃ r, (⟨.file i, Reader.start off, cell⟩ : Reading).readToEnd h =
      .ok ((h.disk.bytes i).extract off (h.disk.bytes i).size, r) := by
  have hlim : (⟨.file i, Reader.start off, cell⟩ : Reading).limit h = none := by
    simp [limit, Int.not_le.2 hl]
  unfold readToEnd read
  simp only [hlim, Reader.window, Reader.read]
  simp only [Reader.start, Nat.zero_add]
  split
  · refine ⟨_, congrArg (fun b => Except.ok (b, _)) ?_⟩
    rw [eq_comm, ByteArray.extract_eq_empty_iff]
    omega
  · rw [show min (h.disk.bytes i).size ((h.disk.bytes i).size - off) = (h.disk.bytes i).size - off
      by omega, Nat.add_sub_cancel' hoff]
    exact ⟨_, rfl⟩

end ClaimStore.Reading

namespace ClaimStore

open ClaimStore.Claim ClaimStore.FileSystem

namespace Handed.Stored

variable {c : Handed} {s : Store} {i : Nat}

theorem cell_cases (hst : c.Stored s i) (hlen : c.sent.size < 2 ^ 64) :
    s.host.cell c.claim.cell = c.sent.size ∨
      s.host.cell c.claim.cell < 0 ∧ c.claim.offset + c.sent.size = (s.host.disk.bytes i).size := by
  have hcell := hst.cell
  by_cases hf : c.phase = .fresh
  · -- not written to yet: no length, and nothing past the end of the file
    rw [if_pos hf] at hcell
    refine .inr ⟨by rw [hcell]; decide, hst.last (.inl ?_)⟩
    rw [hf]
    rfl
  · rw [if_neg hf] at hcell
    by_cases hsmall : c.sent.size < 2 ^ 63
    · exact .inl (hcell.trans (signed64_of_lt hsmall))
    · refine .inr ⟨?_, hst.last (.inr (by omega))⟩
      rw [hcell, signed64, if_neg hsmall]
      omega

theorem readToEnd (hst : c.Stored s i) (hlen : c.sent.size < 2 ^ 64) :
    ∃ r, (⟨.file i, Reader.start c.claim.offset, c.claim.cell⟩ : Reading).readToEnd s.host =
      .ok (c.sent, r) := by
  rcases hst.cell_cases hlen with hk | ⟨hu, hend⟩
  · rw [← hst.bytes]
    exact Reading.readToEnd_of_length hk hst.fits
  · rw [← hst.bytes, hend]
    exact Reading.readToEnd_of_unknown hu (by omega)

theorem size_eq (hst : c.Stored s i) (hlen : c.sent.size < 2 ^ 64) :
    (if s.host.cell c.claim.cell ≥ 0 then (s.host.cell c.claim.cell).toNat
      else (s.host.disk.bytes i).size - c.claim.offset) = c.sent.size := by
  rcases hst.cell_cases hlen with hk | ⟨hu, hend⟩
  · simp [hk]
  · rw [if_neg (Int.not_le.2 hu)]
    omega

end Handed.Stored

/-- The file `i` is what a reading of a claim finds under the root `p`: at the live place, or at
the archive place when the live one holds nothing. -/
def Found (d : FileSystem.Disk) (p : Place) (r : Resource) (i : Nat) : Prop :=
  d.node? (livePlace p r) = some (.file i) ∨
    d.node? (livePlace p r) = none ∧ d.node? (archivePlace p r) = some (.file i)

theorem found_of_holds {d : FileSystem.Disk} {p : Place} {r : Resource} {i : Nat}
    (hlive : HoldsAt d (livePlace p r) i) (harch : HoldsAt d (archivePlace p r) i)
    (hany : (d.node? (livePlace p r)).isSome || (d.node? (archivePlace p r)).isSome) :
    Found d p r i := by
  rcases hlive with hl | hl
  · rcases harch with ha | ha
    · simp [hl, ha] at hany
    · exact .inr ⟨hl, ha⟩
  · exact .inl hl

namespace Action

variable {s : Store} {r : Resource} {box : Container} {p : Place} {i : Nat}

section Places

variable (hbox : s.repo.container? r.container = some box) (hp : place? box.root = some p)
  (hr : r.Plain) (hs : s.host.disk.Sound)
include hbox hp hr hs

theorem exec_openContent (hf : Found s.host.disk p r i) :
    (openContent r).exec s = (.ok (.file i), s) := by
  simp only [openContent, exec_bind, exec_container, hbox, exec_host]
  rcases hf with hlive | ⟨hlive, harch⟩
  · simp [Container.claimPath_place hp hr, placeOf_of_place?, Disk.openRead_of_some hs hlive,
      bind, Except.bind]
  · simp [Container.claimPath_place hp hr, Container.archivePath_place hp hr, placeOf_of_place?,
      Disk.openRead_of_none (hs.reach_live harch) hlive, Disk.openRead_of_some hs harch, bind,
      Except.bind]

theorem exec_isAccessible :
    (isAccessible r).exec s = (.ok ((s.host.disk.node? (livePlace p r)).isSome ||
      (s.host.disk.node? (archivePlace p r)).isSome), s) := by
  simp only [isAccessible, resolvePath, exec_bind, exec_repo, hbox, exec_host, exec_pure]
  simp only [Disk.existsAt, Disk.nodeAt?_of_place? hs (Container.claimPath_place hp hr),
    Disk.nodeAt?_of_place? hs (Container.archivePath_place hp hr), List.find?_cons]
  cases (s.host.disk.node? (livePlace p r)).isSome <;>
    cases (s.host.disk.node? (archivePlace p r)).isSome <;> rfl

theorem exec_sizeOfResource (hf : Found s.host.disk p r i) :
    (sizeOfResource r).exec s = (.ok (s.host.disk.bytes i).size, s) := by
  simp only [sizeOfResource, resolvePath, exec_bind, exec_repo, hbox, exec_host, exec_pure]
  have hlive := Disk.nodeAt?_of_place? hs (Container.claimPath_place hp hr)
  have harch := Disk.nodeAt?_of_place? hs (Container.archivePath_place hp hr)
  rcases hf with hl | ⟨hl, ha⟩
  · simp [Disk.existsAt, hlive, hl, Disk.sizeOf, exec_bind]
  · simp [Disk.existsAt, hlive, harch, hl, ha, Disk.sizeOf, exec_bind]

end Places

variable {c : ClaimRef}

theorem exec_read (hopen : (openContent c.resource).exec s = (.ok (.file i), s))
    (hoff : c.offset ≤ (s.host.disk.bytes i).size) :
    (read c).exec s = (.ok ⟨.file i, Reader.start c.offset, c.cell⟩, s) := by
  simp [read, exec_bind, hopen, Disk.sizeOf, Nat.not_lt.2 hoff]

theorem exec_exportAll {ρ ρ' : Reading} {bs : ByteArray} (hread : (read c).exec s = (.ok ρ, s))
    (h : ρ.readToEnd s.host = .ok (bs, ρ')) : (exportAll c).exec s = (.ok bs, s) := by
  simp [exportAll, drain, exec_bind, hread, h, exec_map]

theorem exec_size {n : Nat} (hres : (s.host.cell c.cell < 0 → (sizeOfResource c.resource).exec s = (.ok n, s))) :
    (size c).exec s = (.ok (if s.host.cell c.cell ≥ 0 then (s.host.cell c.cell).toNat
      else n - c.offset), s) := by
  by_cases hk : s.host.cell c.cell ≥ 0
  · simp [size, exec_bind, hk]
  · simp [size, exec_bind, hk, exec_map, hres (Int.not_le.1 hk)]

end Action

namespace Inv

variable {W : World} {c : Handed}

theorem found (hI : Inv W) (hc : c ∈ W.handed)
    (hacc : ((Action.isAccessible c.claim.resource).exec W.store).1 = .ok true) :
    ∃ box p i, W.store.repo.container? c.claim.resource.container = some box ∧
      place? box.root = some p ∧ c.claim.resource.Plain ∧
      Found W.store.host.disk p c.claim.resource i ∧ c.Stored W.store i := by
  obtain ⟨i, hi, hst⟩ := hI.stored c hc
  have hnum := (hI.numbered _ i hi).1
  obtain ⟨box, hmem, hname⟩ := hnum.box
  have hbox : W.store.repo.container? c.claim.resource.container = some box := by
    rw [← show box.name = c.claim.resource.container from hname]
    exact hI.layout.find?_name hmem
  obtain ⟨p, hp⟩ := Option.isSome_iff_exists.1 (hI.layout.rooted box hmem)
  obtain ⟨hlive, harch⟩ := hI.placed _ i hi box hmem hname p hp
  have hany := hacc
  rw [Action.exec_isAccessible hbox hp hnum.plain hI.sound] at hany
  exact ⟨box, p, i, hbox, hp, hnum.plain,
    found_of_holds hlive harch (by simpa using hany), hst⟩

end Inv

/-- A claim handed out by `create` reads back as exactly the bytes written through its writer, so
far or in all, and its size is their count, as long as its live or its archive place holds
anything. -/
theorem read_returns_written {W : World} (hW : Reachable W) {c : Handed} (hc : c ∈ W.handed)
    (hlen : c.sent.size < 2 ^ 64)
    (hacc : ((Action.isAccessible c.claim.resource).exec W.store).1 = .ok true) :
    (Action.exportAll c.claim).exec W.store = (.ok c.sent, W.store) ∧
      (Action.size c.claim).exec W.store = (.ok c.sent.size, W.store) := by
  have hI := hW.inv
  obtain ⟨box, p, i, hbox, hp, hr, hf, hst⟩ := hI.found hc hacc
  have hopen := Action.exec_openContent hbox hp hr hI.sound hf
  obtain ⟨ρ, hρ⟩ := hst.readToEnd hlen
  refine ⟨Action.exec_exportAll (Action.exec_read hopen (by have := hst.fits; omega)) hρ, ?_⟩
  rw [Action.exec_size fun _ => Action.exec_sizeOfResource hbox hp hr hI.sound hf,
    hst.size_eq hlen]


/-! ## A pooled file read back -/

deriving instance DecidableEq for Handed

deriving instance DecidableEq for StoreError

theorem Roots.fresh {name root : String} (hroot : ∀ p, place? root = some p → p ≠ [])
    (now : Nat) : Roots [(name, root)] Disk.fresh now where
  apart := by simp
  unnumbered := by
    simp only [List.mem_singleton, forall_eq]
    intro p hp sec t j _ _
    have hp1 : 1 ≤ p.length := List.length_pos_iff.2 (hroot p hp)
    -- every place the fresh disk lists is at most two names long
    have hshort : ∀ q : Place, 3 ≤ q.length → Disk.fresh.node? q = none := fun q hq =>
      Disk.node?_of_deeper (by rintro rfl; simp at hq) fun e he => by
        simp only [Disk.fresh, scratchPlace, workPlace, List.mem_cons, List.not_mem_nil,
          or_false] at he
        rcases he with rfl | rfl | rfl <;> simp <;> omega
    exact ⟨hshort _ (by simp; omega), hshort _ (by simp)⟩

/-- One container rooted at `c` with one section, files pooled while under a kibibyte, and no
archive. -/
def pooledSettings : Config.Resolved :=
  { containers := [("default", "c")], sections := 1, archiveEnabled := false,
    maxArchiveRatio := 0.5, backpressureRatio := 0.52, retentionNanos := 1000,
    cleanupNanos := 1000000000, maxAppendable := 1024, maxPooled := 4, alwaysSync := false,
    destructionNanos := 1000, reclaimQueue := 8, reclaimOfferNanos := 1000 }

/-- The repository of `pooledSettings` opened over a fresh disk. -/
def pooledWorld : World := (World.launch pooledSettings 8 (Probe.Script.probe {}) Disk.fresh 0).get (by decide +kernel)

theorem pooledWorld_reachable : Reachable pooledWorld :=
  .opened ⟨by decide, by decide, by decide⟩ (Disk.Sound.of_nodes (by decide +kernel))
    (Roots.fresh (fun p hp => by
      rw [show place? "c" = some ["work", "c"] by decide] at hp
      cases hp
      simp) 0)
    (Option.some_get _).symm

/-- Two claims written into one pooled file: the first closed after two bytes, the second still
being written after one more. -/
def twoClaims : World :=
  pooledWorld.run [.create false, .write 0, .send 0 ⟨#[7, 8]⟩, .close 0, .create false, .write 1,
    .send 1 ⟨#[9]⟩]

/-- The first claim, as its caller holds it. -/
def firstClaim : Handed := ⟨⟨⟨"default", "0", "0-1", false⟩, 0, 0⟩, ⟨#[7, 8]⟩, .done⟩

/-- The first of two claims pooled into one file reads back as its own two bytes while the second
is written behind it. -/
theorem first_pooled_claim_reads_back :
    Reachable twoClaims ∧ firstClaim ∈ twoClaims.handed ∧ firstClaim.sent.size < 2 ^ 64 ∧
      ((Action.isAccessible firstClaim.claim.resource).exec twoClaims.store).1 = .ok true ∧
      ((Action.exportAll firstClaim.claim).exec twoClaims.store =
          (.ok firstClaim.sent, twoClaims.store) ∧
        (Action.size firstClaim.claim).exec twoClaims.store =
          (.ok firstClaim.sent.size, twoClaims.store)) := by
  have hW : Reachable twoClaims :=
    .step (.send 1 ⟨#[9]⟩) (.step (.write 1) (.step (.create false) (.step (.close 0)
      (.step (.send 0 ⟨#[7, 8]⟩) (.step (.write 0) (.step (.create false) pooledWorld_reachable
        trivial fun _ => by decide +kernel) trivial nofun) trivial nofun) trivial nofun)
        trivial fun _ => by decide +kernel) trivial nofun) trivial nofun
  have hmem : firstClaim ∈ twoClaims.handed := by decide +kernel
  have hacc : ((Action.isAccessible firstClaim.claim.resource).exec twoClaims.store).1 =
      .ok true := by decide +kernel
  exact ⟨hW, hmem, by decide, hacc, read_returns_written hW hmem (by decide) hacc⟩

end ClaimStore
