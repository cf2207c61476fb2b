import ClaimStore.Proofs.Repo.Mirroring
import ClaimStore.Proofs.Repo.Cleanup
import ClaimStore.Proofs.Repo.Missing
/-!
# A failed clone rolls back what it took

A clone creates a claim and copies into it; the create either takes a resource claim from the
pool or makes a new one. When the copy fails (the original cannot be read, or a directory is
read), its writer is aborted, which retires the stream and freezes the resource claim, and the
rollback counts the claim down and removes it once nothing uses it.

`Store.Touches` is the frame of such a call: only the taken resource claim changes, every other
claim keeps its record, stream, pool entries and file, and no file or length cell there was
changes. Each phase of the call keeps it (`Store.Touches.take`, `make`, `setCell_new`, `retire`,
`decrement`, `Action.touches_removeResource`), and `Store.RolledBack` adds what becomes of the
taken claim: its count as before, frozen, without stream or pool entry, and without its live
file when its count is zero (`Reachable.clone_rolls_back`). When it had claimants, it came from
the pool and the disk and containers stayed: the claims on it read as before. Together with
`clone_reads_as_original` this is `clone_copies_or_rolls_back`.
-/

set_option autoImplicit false

namespace ClaimStore

open ClaimStore.Claim ClaimStore.FileSystem

theorem Tracker.Destroys.record {t t' : Tracker} {c : Resource} {target : Lifecycle}
    (h : Tracker.Destroys t c target t') (k : ClaimKey) : t'.record k = t.record k := by
  cases h with
  | untouched => rfl
  | refused hb => exact Tracker.record_of_not_begin t c k hb
  | finished hb => exact Tracker.record_finish_of_begin t c k hb
  | undone hb => exact Tracker.record_abort_of_begin t c k hb

/-- From `s` to `s'` nothing changed but what belongs to the resource claim `r`: every other
claim keeps its record, its stream and its pool entries, the containers keep their roots, every
place but `r`'s live place holds what it held, and every file and length cell there was keeps
its contents. -/
structure Store.Touches (s s' : Store) (r : Resource) : Prop where
  records : ∀ k, k ≠ r.key → s'.repo.tracker.record k = s.repo.tracker.record k
  registered : ∀ k, k ≠ r.key → s'.repo.registered k = s.repo.registered k
  pooled : ∀ e : Resource × Nat, e.1.key ≠ r.key →
    (e ∈ s'.repo.pool.items ↔ e ∈ s.repo.pool.items)
  roots : ∀ name, (s'.repo.container? name).map (·.root) = (s.repo.container? name).map (·.root)
  places : ∀ q, s.repo.livePlace? r.key ≠ some q → s'.host.disk.node? q = s.host.disk.node? q
  bytes : ∀ j, j < s.host.disk.inodes.size → s'.host.disk.bytes j = s.host.disk.bytes j
  inodes : s.host.disk.inodes.size ≤ s'.host.disk.inodes.size
  cells : ∀ m, m < s.host.cells.size → s'.host.cell m = s.host.cell m
  cellCount : s.host.cells.size ≤ s'.host.cells.size

theorem Store.Regated.roots {s s' : Store} (h : s.Regated s') (name : String) :
    (s'.repo.container? name).map (·.root) = (s.repo.container? name).map (·.root) := by
  obtain ⟨-, g, hg⟩ := h
  simp [Repo.container?, hg, List.find?_map, Option.map_map, Function.comp_def]

namespace Store.Touches

variable {s s' s'' : Store} {r : Resource}

theorem of_host (hh : s'.host = s.host) (ht : s'.repo.tracker = s.repo.tracker)
    (hst : s'.repo.streams = s.repo.streams) (hp : s'.repo.pool = s.repo.pool)
    (hroots : ∀ name, (s'.repo.container? name).map (·.root) = (s.repo.container? name).map (·.root)) :
    Touches s s' r where
  records _ _ := by rw [ht]
  registered _ _ := by simp only [Repo.registered, hst]
  pooled _ _ := by rw [hp]
  roots := hroots
  places _ _ := by rw [hh]
  bytes _ _ := by rw [hh]
  inodes := by simp only [hh, Nat.le_refl]
  cells _ _ := by rw [hh]
  cellCount := by simp only [hh, Nat.le_refl]

theorem refl (s : Store) (r : Resource) : Touches s s r := of_host rfl rfl rfl rfl fun _ => rfl

theorem trans (h : Touches s s' r) (h' : Touches s' s'' r) : Touches s s'' r where
  records k hk := (h'.records k hk).trans (h.records k hk)
  registered k hk := (h'.registered k hk).trans (h.registered k hk)
  pooled e he := (h'.pooled e he).trans (h.pooled e he)
  roots name := (h'.roots name).trans (h.roots name)
  places q hq := by
    have hlive : s'.repo.livePlace? r.key = s.repo.livePlace? r.key :=
      Repo.livePlace?_congr h.roots r.key
    exact (h'.places q (hlive ▸ hq)).trans (h.places q hq)
  bytes j hj := (h'.bytes j (Nat.lt_of_lt_of_le hj h.inodes)).trans (h.bytes j hj)
  inodes := Nat.le_trans h.inodes h'.inodes
  cells m hm := (h'.cells m (Nat.lt_of_lt_of_le hm h.cellCount)).trans (h.cells m hm)
  cellCount := Nat.le_trans h.cellCount h'.cellCount

theorem of_tracker_disk (s : Store) {t : Tracker} {d : Disk}
    (ht : ∀ k, k ≠ r.key → t.record k = s.repo.tracker.record k)
    (hd : ∀ q, s.repo.livePlace? r.key ≠ some q → d.node? q = s.host.disk.node? q)
    (hi : d.inodes = s.host.disk.inodes) :
    Touches s ⟨{ s.repo with tracker := t }, { s.host with disk := d }⟩ r where
  records := ht
  registered _ _ := rfl
  pooled _ _ := Iff.rfl
  roots _ := rfl
  places := hd
  bytes _ _ := by simp only [Disk.bytes, hi]
  inodes := by simp only [hi, Nat.le_refl]
  cells _ _ := rfl
  cellCount := Nat.le_refl _

theorem tracker (s : Store) {t : Tracker}
    (ht : ∀ k, k ≠ r.key → t.record k = s.repo.tracker.record k) :
    Touches s ⟨{ s.repo with tracker := t }, s.host⟩ r :=
  of_tracker_disk s ht (fun _ _ => rfl) rfl

theorem take (s : Store) {len : Nat} {rest : List (Resource × Nat)}
    (hpool : s.repo.pool.items = (r, len) :: rest) (v : Int) :
    Touches s ⟨{ s.repo with
        pool := s.repo.pool.poll.2
        tracker := (s.repo.tracker.increment r false).2 },
      { s.host with cells := s.host.cells.push v }⟩ r where
  records k hk := by rw [Tracker.record_increment, if_neg hk]
  registered _ _ := rfl
  pooled e he := by
    rw [Fifo.poll_items, hpool, List.tail_cons, List.mem_cons]
    exact ⟨.inr, fun h => h.resolve_left fun h' => he (by rw [h'])⟩
  roots _ := rfl
  places _ _ := rfl
  bytes _ _ := rfl
  inodes := Nat.le_refl _
  cells m hm := by rw [Host.cell_of_push s.host rfl, if_neg (Nat.ne_of_lt hm)]
  cellCount := by simp

theorem setCell_new (h : Touches s s' r) {c : Nat} (hc : s.host.cells.size ≤ c)
    (hc' : c < s'.host.cells.size) (v : Int) :
    Touches s { s' with host := s'.host.setCell c v } r :=
  { h with
    cells := fun m hm => by
      rw [Host.cell_setCell _ hc', if_neg (by omega)]
      exact h.cells m hm
    cellCount := by
      rw [Host.size_setCell]
      exact h.cellCount }

theorem retire (s : Store) (r : Resource) (n : Nat) : Touches s (s.retire r n) r where
  records k hk := by
    rw [Store.retire]
    dsimp only
    rw [Tracker.record_freeze, if_neg fun h => hk h.1]
  registered k hk := by
    rw [Store.registered_retire]
    simp [hk]
  pooled _ _ := Iff.rfl
  roots _ := rfl
  places _ _ := rfl
  bytes _ _ := rfl
  inodes := Nat.le_refl _
  cells _ _ := rfl
  cellCount := Nat.le_refl _

theorem decrement (s : Store) (r : Resource) :
    Touches s ⟨{ s.repo with tracker := (s.repo.tracker.decrement r).2 }, s.host⟩ r :=
  tracker s fun k hk => by rw [Tracker.record_decrement, if_neg fun h => hk h.1]

theorem of_regated (h : s.Regated s') : Touches s s' r := by
  obtain ⟨hh, g, hg⟩ := h
  exact of_host hh (by rw [hg]) (by rw [hg]) (by rw [hg]) (Store.Regated.roots ⟨hh, g, hg⟩)

/-- Making `r`'s file at its live place, with a stream on it and a cell pushed. -/
theorem make (s : Store) {p : Place} (hlive : s.repo.livePlace? r.key = some (livePlace p r))
    (n : Nat) (st : Stream) (v : Int) :
    Touches s ⟨{ s.repo with
        tracker := (s.repo.tracker.increment r true).2
        streams := (r.key, n) :: s.repo.streams },
      { s.host with
        disk := (s.host.disk.allocate ByteArray.empty s.host.now).2.set (livePlace p r)
          (.file s.host.disk.inodes.size)
        streams := s.host.streams.push st
        cells := s.host.cells.push v }⟩ r where
  records k hk := by rw [Tracker.record_increment, if_neg hk]
  registered k hk := by simp [Repo.registered, Ne.symm hk]
  pooled _ _ := Iff.rfl
  roots _ := rfl
  places q hq := by
    rw [Disk.node?_set, if_neg fun h => hq (by rw [h.1]; exact hlive), Disk.node?_allocate]
  bytes j hj := by rw [Disk.bytes_set, Disk.bytes_allocate, if_neg (Nat.ne_of_lt hj)]
  inodes := by simp [Disk.set, Disk.allocate]
  cells m hm := by rw [Host.cell_of_push s.host rfl, if_neg (Nat.ne_of_lt hm)]
  cellCount := by simp

end Store.Touches

namespace Action

variable {s : Store} {r : Resource}

theorem exec_rollback_of_not_writable {c : ClaimRef}
    (hw : (s.repo.tracker.state c.resource).isWritable = false) :
    ((rollback c).exec s).2 = ((removeResource c.resource).exec
      { s with repo := { s.repo with tracker := (s.repo.tracker.decrement c.resource).2 } }).2 := by
  unfold rollback
  simp only [exec_bind, exec_repo, hw, Bool.false_eq_true, if_false, exec_pure, exec_tracking,
    exec_attempt]

theorem clone_failed {s' s1 : Store} {original copy : ClaimRef} {lossTolerant : Bool}
    {e : StoreError} (hcr : (create lossTolerant).exec s = (.ok (.claim copy), s1))
    (h : (clone original lossTolerant).exec s = (.error e, s')) :
    ∃ e2 s2, (copyClaim original copy).exec s1 = (.error e2, s2) ∧
      s' = ((rollback copy).exec s2).2 := by
  unfold clone at h
  rw [exec_bind, hcr] at h
  dsimp only at h
  rw [exec_bind, exec_attempt] at h
  rcases hcp : (copyClaim original copy).exec s1 with ⟨e2 | (_ | ⟨r, w⟩), s2⟩ <;> rw [hcp] at h <;>
    dsimp only at h
  · obtain ⟨e', he⟩ := exec_then_throw (rollback copy) e2 s2
    rw [h] at he
    exact ⟨e2, s2, rfl, (Prod.mk.inj he).2⟩
  · cases h
  · cases h

theorem exec_exportAll_congr {s' : Store} (hc : s'.repo.containers = s.repo.containers)
    (hd : s'.host.disk = s.host.disk) {c : ClaimRef} (hcell : s'.host.cell c.cell = s.host.cell c.cell) :
    (exportAll c).exec s' = (((exportAll c).exec s).1, s') := by
  have hopen := exec_openContent_congr hc (fun q => by rw [hd]) c.resource
  have hro := (readOnly_openContent c.resource).exec_eq s
  unfold exportAll read drain
  simp only [exec_bind, hopen, exec_host]
  rw [hro]
  rcases ((openContent c.resource).exec s).1 with _ | n
  · rfl
  · -- the offset is checked against the same disk, and the reading reads the same bytes
    by_cases hoff : c.offset > s.host.disk.sizeOf n
    · simp [hd, hoff]
    · have hrd : (⟨n, Reader.start c.offset, c.cell⟩ : Reading).readToEnd s'.host =
          (⟨n, Reader.start c.offset, c.cell⟩ : Reading).readToEnd s.host := by
        simp only [Reading.readToEnd, Reading.read, Reading.limit, hd, hcell]
      simp only [hd, hoff, if_false, exec_pure, exec_ofIo, hrd]
      rcases (⟨n, Reader.start c.offset, c.cell⟩ : Reading).readToEnd s.host with _ | _ <;> rfl

theorem repo_removeResource (hn : s.repo.streamOf? r = none) :
    ((removeResource r).exec s).2.repo =
      { s.repo with tracker := ((removeResource r).exec s).2.repo.tracker } := by
  cases hbox : s.repo.container? r.container with
  | none => rw [exec_removeResource_of_none _ hbox]
  | some box =>
    cases hb : (s.repo.tracker.beginDestruction r .removed).1 with
    | false => rw [exec_removeResource_of_not_begin _ hbox hb]
    | true =>
      rw [exec_removeResource_of_begin _ hbox hb hn]
      dsimp only
      split <;> rfl

/-- Removing `r`, which has no stream, touches `r` only: every record stays, and only the file at
`r`'s live place may go. -/
theorem touches_removeResource (hL : Layout s.repo.containers) (hs : s.host.disk.Sound)
    (hr : r.Plain) (hn : s.repo.streamOf? r = none) :
    s.Touches ((removeResource r).exec s).2 r := by
  cases hbox : s.repo.container? r.container with
  | none =>
    rw [exec_removeResource_of_none _ hbox]
    exact .refl s r
  | some box =>
    obtain ⟨p, hp⟩ := Option.isSome_iff_exists.1 (hL.rooted box (Repo.mem_of_container? hbox).1)
    cases hb : (s.repo.tracker.beginDestruction r .removed).1 with
    | false =>
      rw [exec_removeResource_of_not_begin _ hbox hb]
      exact .tracker s fun k _ => Tracker.record_of_not_begin _ _ _ hb
    | true =>
      rw [exec_removeResource_of_begin _ hbox hb hn]
      dsimp only
      split
      · next d hd =>
        rw [removeFileAt_claimPath hp hr] at hd
        obtain ⟨-, -, hi, hq⟩ := Disk.removeFile_eq_ok hs hd
        have hlive : s.repo.livePlace? r.key = some (livePlace p r) :=
          Repo.livePlace?_eq_some.2 ⟨box, p, hbox, hp, rfl⟩
        refine .of_tracker_disk s (fun k _ => Tracker.record_finish_of_begin _ _ _ hb)
          (fun q hq' => ?_) hi
        rw [hq, if_neg fun (h : q = livePlace p r) => hq' (h ▸ hlive)]
      · exact .tracker s fun k _ => Tracker.record_finish_of_begin _ _ _ hb
      · exact .tracker s fun k _ => Tracker.record_abort_of_begin _ _ _ hb

theorem live?_removeResource (hs : s.host.disk.Sound)
    (hr : r.Plain) (hn : s.repo.streamOf? r = none)
    (hb : (s.repo.tracker.beginDestruction r .removed).1 = true) {i : Nat}
    (hf : s.live? r.key = some (.file i)) : ((removeResource r).exec s).2.live? r.key = none := by
  obtain ⟨q, hq, hnode⟩ := Option.bind_eq_some_iff.1 hf
  obtain ⟨box, p, hbox, hp, rfl⟩ := Repo.livePlace?_eq_some.1 hq
  have hfile : s.host.disk.node? (livePlace p r) = some (.file i) := hnode
  rw [exec_removeResource_of_begin _ hbox hb hn, removeFileAt_claimPath hp hr,
    (removeFile_live hs hfile).1]
  show (s.repo.livePlace? r.key).bind (s.host.disk.drop (livePlace p r)).node? = none
  rw [hq, Option.bind_some, Disk.node?_drop, if_pos ⟨List.prefix_refl _, by simp⟩]

end Action

namespace Inv

variable {W : World}

/-- The create step of a clone touches the claim it hands out only: that claim's resource claim
gains a claimant and is writable, and when a file was noted for it before, it came from the pool
and the containers and the disk stayed as they were. -/
theorem create_touches (hI : Inv W) (hids : W.store.repo.ids.value + 1 < 2 ^ 64)
    {lossTolerant : Bool} {copy : ClaimRef} {s1 : Store}
    (hcr : (Action.create lossTolerant).exec W.store = (.ok (.claim copy), s1)) :
    W.store.Touches s1 copy.resource ∧
      s1.repo.tracker.record copy.resource.key =
        ⟨(W.store.repo.tracker.record copy.resource.key).count + 1, .writable⟩ ∧
      (copy.resource.key ∈ W.files.map (·.1) →
        s1.repo.containers = W.store.repo.containers ∧ s1.host.disk = W.store.host.disk) := by
  cases hpool : W.store.repo.pool.items with
  | cons e rest =>
    obtain ⟨c, len⟩ := e
    rw [Action.exec_create_of_pooled hI hpool] at hcr
    simp only [Prod.mk.injEq, Except.ok.injEq, Created.claim.injEq] at hcr
    obtain ⟨rfl, rfl⟩ := hcr
    -- a pooled claim has a stream, so it is writable
    have hw : (W.store.repo.tracker.record c.key).state = .writable := by
      have h := hI.writable c.key
      rw [hI.pooled_registered (hpool ▸ List.mem_cons_self), Lifecycle.isWritable, eq_comm,
        beq_iff_eq] at h
      exact h
    refine ⟨Store.Touches.take W.store hpool (-1), ?_, fun _ => ⟨rfl, rfl⟩⟩
    rw [Tracker.record_increment, if_pos rfl, hw]
    rfl
  | nil =>
    rw [Action.exec_create_of_empty W.store hI.running.1 hpool hids] at hcr
    have hI1 := hI.number (Nat.le_succ W.store.repo.ids.value)
    have hu1 : ({ W with store := { W.store with repo := { W.store.repo with
        ids := ⟨W.store.repo.ids.value + 1⟩ } } } : World).Unnumbered (W.store.repo.ids.value + 1) :=
      hI.unnumbered (Nat.lt_add_one _)
    obtain ⟨hreg, hmem⟩ := Action.selectContainer_regated (W.store.repo.ids.value + 1)
      { W.store with repo := { W.store.repo with ids := ⟨W.store.repo.ids.value + 1⟩ } }
      hI.layout.names
    rcases hsel : (Action.selectContainer (W.store.repo.ids.value + 1)).exec { W.store with
        repo := { W.store.repo with ids := ⟨W.store.repo.ids.value + 1⟩ } } with
      ⟨_ | (_ | box), s2⟩ <;> rw [hsel] at hcr hreg hmem <;> dsimp only at hcr hmem
    · cases hcr
    · cases hcr
    have hI2 : Inv { W with store := s2 } := hI1.regate hreg
    have hbox : box ∈ s2.repo.containers := hmem box rfl
    have hu2 := hu1.regate hreg
    obtain ⟨p, hp⟩ := Option.isSome_iff_exists.1 (hI2.layout.rooted box hbox)
    obtain ⟨hnone, -, hnew⟩ := hu2 box hbox p hp (box.sectionName (W.store.repo.ids.value + 1))
      s2.host.now (Nat.le_refl _)
    have hregr : s2.repo.registered (box.name, box.sectionName (W.store.repo.ids.value + 1),
        formatId s2.host.now (W.store.repo.ids.value + 1)) = false := by
      refine Bool.eq_false_iff.2 fun h => ?_
      obtain ⟨n, hn⟩ := (Repo.registered_iff _ _).1 h
      obtain ⟨-, i, hi, -⟩ := hI2.stream_file _ n hn
      exact hnew (List.mem_map.2 ⟨_, hi, rfl⟩)
    have hdir := hI2.sections box hbox p hp _
      (Nat.mod_lt (W.store.repo.ids.value + 1) (hI2.layout.sections box hbox))
    rw [Action.exec_createIn s2 rfl hp hI2.sound hdir hnone hregr] at hcr
    simp only [Prod.mk.injEq, Except.ok.injEq, Created.claim.injEq] at hcr
    obtain ⟨rfl, rfl⟩ := hcr
    have hlive : s2.repo.livePlace? (Resource.key ⟨box.name,
        box.sectionName (W.store.repo.ids.value + 1), formatId s2.host.now (W.store.repo.ids.value + 1),
        lossTolerant⟩) = some (livePlace p ⟨box.name, box.sectionName (W.store.repo.ids.value + 1),
          formatId s2.host.now (W.store.repo.ids.value + 1), lossTolerant⟩) :=
      Repo.livePlace?_eq_some.2 ⟨box, p, hI2.layout.find?_name hbox, hp, rfl⟩
    have htrack : s2.repo.tracker = W.store.repo.tracker := by
      obtain ⟨-, g, hg⟩ := hreg
      rw [hg]
    refine ⟨?_, ?_, fun hk => absurd hk hnew⟩
    · -- numbering and choosing the container touch nothing; then the file is made
      have h0 : W.store.Touches { W.store with repo := { W.store.repo with
          ids := ⟨W.store.repo.ids.value + 1⟩ } } ⟨box.name, box.sectionName (W.store.repo.ids.value + 1),
            formatId s2.host.now (W.store.repo.ids.value + 1), lossTolerant⟩ :=
        .of_host rfl rfl rfl rfl fun _ => rfl
      exact (h0.trans (.of_regated hreg)).trans (.make s2 hlive _ _ _)
    · rw [Tracker.record_increment, if_pos rfl, htrack]
      rfl

variable {k : Nat} {w : Writer}

theorem abortWriter_retires (hI : Inv W) (hk : k < W.handed.length)
    (hw : W.handed[k].phase = .writing w) :
    ((Action.abortWriter w).exec W.store).2 = W.store.retire w.claim.resource w.stream := by
  obtain ⟨hwc, hn, -, -⟩ := hI.writer _ (List.getElem_mem hk) w hw
  have hkey : w.claim.resource.key = W.handed[k].key := by simp [Handed.key, hwc]
  have hp : ¬ Action.Pools W.store w.claim.resource w.stream true := fun h => Bool.noConfusion h.1
  rw [Action.exec_abortWriter hI hk hw, Action.exec_completeWrite_of_not_pools _ _
    (hI.stream_file _ _ hn).1 (hI.streamOf?_eq_some.2 (hkey ▸ hn)) hp]

end Inv

/-- What a failed clone leaves of the resource claim `r` it took: the claimants it had before,
frozen, without a stream or a pool entry, its live file gone when no claimant is left, and every
other claim as it was. -/
structure Store.RolledBack (s s' : Store) (r : Resource) : Prop where
  touches : s.Touches s' r
  record : s'.repo.tracker.record r.key = ⟨(s.repo.tracker.record r.key).count, .frozen⟩
  unregistered : s'.repo.registered r.key = false
  unpooled : ∀ e ∈ s'.repo.pool.items, e.1.key ≠ r.key
  removed : (s.repo.tracker.record r.key).count = 0 → s'.live? r.key = none

/-- A clone that fails after its create handed out `copy`, in a world a run reaches, of a claim
on a cell the store has, rolls `copy`'s resource claim back. When that resource claim had
claimants before, it came from the pool, and every claim the caller holds on it reads as it did. -/
theorem Reachable.clone_rolls_back {W : World} (hW : Reachable W)
    (hids : W.store.repo.ids.value + 1 < 2 ^ 64) {original : ClaimRef}
    (hcell : original.cell < W.store.host.cells.size) {lossTolerant : Bool} {copy : ClaimRef}
    {s1 : Store} (hcr : (Action.create lossTolerant).exec W.store = (.ok (.claim copy), s1))
    {e : StoreError} {s' : Store}
    (hcl : (Action.clone original lossTolerant).exec W.store = (.error e, s')) :
    W.store.RolledBack s' copy.resource ∧
      (0 < (W.store.repo.tracker.record copy.resource.key).count → ∀ c ∈ W.handed,
        c.key = copy.resource.key →
          (Action.exportAll c.claim).exec s' = (((Action.exportAll c.claim).exec W.store).1, s')) := by
  have hI := hW.inv
  obtain ⟨hT1, hrec1, hkept1⟩ := hI.create_touches hids hcr
  have hr : copy.resource.Plain := (hI.clone_copy hids hcr original).1
  obtain ⟨n, -, hI2, hlive, hends⟩ := hW.clone_copy_ends hids hcell hcr
  obtain ⟨e2, s2, hcp, hs'⟩ := Action.clone_failed hcr hcl
  -- the copy failed, so it aborted its writer: the stream was retired and the claim frozen
  have hk2 : W.handed.length <
      (W.handed ++ [(⟨copy, .empty, .writing (Writer.start copy n)⟩ : Handed)]).length := by simp
  have hw2 : (W.handed ++ [(⟨copy, .empty, .writing (Writer.start copy n)⟩ : Handed)])[
      W.handed.length].phase = .writing (Writer.start copy n) := by simp
  have hs2 : s2 = ({ s1 with host := s1.host.setCell copy.cell 0 } : Store).retire copy.resource n := by
    rw [hcp] at hends
    rcases hends with ⟨h, -⟩ | ⟨e', he⟩ | ⟨r, w, h⟩
    · cases h
    · rw [(Prod.mk.inj he).2]
      exact hI2.abortWriter_retires hk2 hw2
    · cases h
  generalize hs3 : ({ s1 with host := s1.host.setCell copy.cell 0 } : Store).retire copy.resource n
    = s3 at hs2
  subst hs2
  have hrec3 : s2.repo.tracker.record copy.resource.key =
      ⟨(W.store.repo.tracker.record copy.resource.key).count + 1, .frozen⟩ := by
    rw [← hs3, Store.retire]
    dsimp only
    rw [Tracker.record_freeze, if_pos ⟨rfl, by rw [hrec1]⟩, hrec1]
  have hnw : (s2.repo.tracker.state copy.resource).isWritable = false := by
    rw [Tracker.state, hrec3]
    rfl
  rw [Action.exec_rollback_of_not_writable hnw] at hs'
  generalize hs4 : ({ s2 with repo := { s2.repo with
    tracker := (s2.repo.tracker.decrement copy.resource).2 } } : Store) = s4 at hs'
  have hrec4 : s4.repo.tracker.record copy.resource.key =
      ⟨(W.store.repo.tracker.record copy.resource.key).count, .frozen⟩ := by
    rw [← hs4]
    dsimp only
    rw [Tracker.record_decrement, if_pos ⟨rfl, by rw [hrec3]; exact Nat.succ_pos _⟩, hrec3]
    rfl
  have hreg4 : s4.repo.registered copy.resource.key = false := by
    rw [← hs4]
    show s2.repo.registered copy.resource.key = false
    rw [← hs3, Store.registered_retire]
    simp
  have hn4 : s4.repo.streamOf? copy.resource = none := (Repo.streamOf?_eq_none _ _).2 hreg4
  have hcont4 : s4.repo.containers = s1.repo.containers := by rw [← hs4, ← hs3]; rfl
  have hdisk4 : s4.host.disk = s1.host.disk := by rw [← hs4, ← hs3]; rfl
  have hL4 : Layout s4.repo.containers := hcont4 ▸ hI2.layout
  have hsound4 : s4.host.disk.Sound := hdisk4 ▸ hI2.sound
  have hlive4 : s4.live? copy.resource.key = some (.file (s1.host.stream n).inode) := by
    have hplace : s4.repo.livePlace? copy.resource.key = s1.repo.livePlace? copy.resource.key :=
      Repo.livePlace?_congr (fun name => by simp only [Repo.container?, hcont4]) _
    rw [Store.live?, hplace, hdisk4]
    exact hlive
  have hcopy : copy.cell = W.store.host.cells.size := hI.create_cell hids hcr
  have hcell1 : copy.cell < s1.host.cells.size := by
    have := hI2.cells.2 _ (List.mem_append_right _ (List.mem_singleton_self _))
    rwa [Host.size_setCell] at this
  have hT : W.store.Touches s' copy.resource := by
    have hT2 := hT1.setCell_new (Nat.le_of_eq hcopy.symm) hcell1 0
    have hT4 : W.store.Touches s4 copy.resource := by
      rw [← hs4, ← hs3]
      exact (hT2.trans (.retire _ _ n)).trans (.decrement _ _)
    rw [hs']
    exact hT4.trans (Action.touches_removeResource hL4 hsound4 hr hn4)
  have hW' : Reachable (W.after s') := by
    have h := Reachable.step (.clone original lossTolerant) hW trivial fun _ => hids
    simp only [World.step, hcl] at h
    exact h
  have hreg' : s'.repo.registered copy.resource.key = false := by
    rw [hs', Repo.registered, Action.repo_removeResource hn4]
    exact hreg4
  refine ⟨⟨hT, ?_, hreg', fun x hx hkey => ?_, fun h0 => ?_⟩, fun hpos c hc hkey => ?_⟩
  · rw [hs', (Action.destroys_removeResource _ _).record, hrec4]
  · have hhold := hW'.inv.holders copy.resource.key
    simp only [World.after, hreg', Bool.false_eq_true, if_false] at hhold
    have hzero : s'.repo.pool.items.countP (·.1.key == copy.resource.key) = 0 := by omega
    exact (List.countP_eq_zero.1 hzero x hx) (by simp [hkey])
  · -- with no claimant left the destruction begins and takes the live file
    have hb : (s4.repo.tracker.beginDestruction copy.resource .removed).1 = true :=
      (Tracker.beginDestruction_fst _ _ _).2 ⟨by rw [hrec4]; exact h0, by rw [hrec4], .inr rfl⟩
    rw [hs']
    exact Action.live?_removeResource hsound4 hr hn4 hb hlive4
  · -- a claim the caller holds on it was written before, so it came from the pool
    obtain ⟨i, hi, -⟩ := hI.stored c hc
    obtain ⟨hcont1, hdisk1⟩ := hkept1 (List.mem_map.2 ⟨_, hi, hkey⟩)
    have hb : (s4.repo.tracker.beginDestruction copy.resource .removed).1 = false := by
      refine Bool.eq_false_iff.2 fun h => ?_
      have h0 := ((Tracker.beginDestruction_fst _ _ _).1 h).1
      rw [hrec4] at h0
      exact Nat.ne_of_gt hpos h0
    obtain ⟨q, hq, -⟩ := Option.bind_eq_some_iff.1 hlive4
    obtain ⟨box, -, hbox, -⟩ := Repo.livePlace?_eq_some.1 hq
    have hcellc := hT.cells c.claim.cell (hI.cells.2 c hc)
    rw [hs', Action.exec_removeResource_of_not_begin _ hbox hb] at hcellc ⊢
    refine Action.exec_exportAll_congr ?_ ?_ hcellc
    · exact hcont4.trans hcont1
    · exact hdisk4.trans hdisk1

/-- A clone, in a world a run reaches, of a claim on a cell the store has, copies or releases
exactly what it took. When it returns the claim its create handed out, that claim reads as the
original. When it fails after the create, the resource claim of that claim is rolled back to the
claimants it had, frozen, with no stream and no pool entry, its file removed when no claimant is
left; no other claim changed, and when claimants were left every claim the caller holds on it
reads as before. -/
theorem clone_copies_or_rolls_back {W : World} (hW : Reachable W)
    (hids : W.store.repo.ids.value + 1 < 2 ^ 64) {original : ClaimRef}
    (hcell : original.cell < W.store.host.cells.size) {lossTolerant : Bool} {copy : ClaimRef}
    {s1 : Store} (hcr : (Action.create lossTolerant).exec W.store = (.ok (.claim copy), s1)) :
    (∀ s', (Action.clone original lossTolerant).exec W.store = (.ok (.claim copy), s') →
      s'.ReadsAs copy original) ∧
    (∀ e s', (Action.clone original lossTolerant).exec W.store = (.error e, s') →
      W.store.RolledBack s' copy.resource ∧
        (0 < (W.store.repo.tracker.record copy.resource.key).count → ∀ c ∈ W.handed,
          c.key = copy.resource.key →
            (Action.exportAll c.claim).exec s' = (((Action.exportAll c.claim).exec W.store).1, s'))) :=
  ⟨fun _ hcl => clone_reads_as_original hW hids hcell hcl,
    fun _ _ hcl => hW.clone_rolls_back hids hcell hcr hcl⟩

/-- Cloning a claim that has no file, from the world where the pool holds the resource claim of
a written claim: the clone fails, the resource claim the pool handed the copy is rolled back,
and the written claim reads as before. -/
theorem missing_clone_rolled_back :
    ((Action.clone unwrittenClaim false).exec abcPooled.store).1.toBool = false ∧
      abcPooled.store.RolledBack ((Action.clone unwrittenClaim false).exec abcPooled.store).2
        pooledCopy.resource ∧
      ∀ c ∈ abcPooled.handed, (Action.exportAll c.claim).exec
          ((Action.clone unwrittenClaim false).exec abcPooled.store).2 =
        (((Action.exportAll c.claim).exec abcPooled.store).1,
          ((Action.clone unwrittenClaim false).exec abcPooled.store).2) := by
  have hfail : ((Action.clone unwrittenClaim false).exec abcPooled.store).1.toBool = false := by
    decide +kernel
  have hkeys : ∀ c ∈ abcPooled.handed, c.key = pooledCopy.resource.key := by decide +kernel
  have hpos : 0 < (abcPooled.store.repo.tracker.record pooledCopy.resource.key).count := by
    decide +kernel
  refine ⟨hfail, ?_⟩
  rcases h : (Action.clone unwrittenClaim false).exec abcPooled.store with ⟨_ | _, s'⟩
  · obtain ⟨hrb, hkept⟩ := (clone_copies_or_rolls_back abcPooled_reachable (by decide +kernel)
      (by decide +kernel) abcPooled_create).2 _ _ h
    exact ⟨hrb, fun c hc => hkept hpos c hc (hkeys c hc)⟩
  · rw [h] at hfail
    cases hfail

end ClaimStore
