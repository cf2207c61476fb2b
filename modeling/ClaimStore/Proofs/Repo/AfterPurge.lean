import ClaimStore.Proofs.Repo.Purging
import ClaimStore.Proofs.Repo.Releasing
/-!
# A purged repository at work again

A purge of a repository, running or shut down, leaves each root holding only its empty sections,
and the repository with no stream, pooled claim, queued claim or record. A repository left
running is then in a world where the caller holds nothing, and such a world satisfies the
invariant of reachable worlds (`Inv.purged`), so every run from it keeps the invariant
(`Follows.inv`) and reads back what it wrote (`Inv.reads_back`).
With no archived file counted, every gate lets creators through, and the section a new claim
goes to is an empty directory, so `create` hands out a claim (`exec_create_after_purge`).

Main statement: `purge_resets_and_is_idempotent`.
-/

set_option autoImplicit false

namespace ClaimStore

open ClaimStore.Claim ClaimStore.FileSystem ClaimStore.FileSystem.Disk

/-! ## Runs from a world -/

/-- The worlds a caller reaches from `W` by steps that name plain claims, each step that may
number a claim leaving a number to draw. -/
inductive Follows (W : World) : World → Prop
  | refl : Follows W W
  | step {V : World} (st : Step) : Follows W V → st.PlainClaims →
      (st.numbers → V.store.repo.ids.value + 1 < 2 ^ 64) → Follows W (V.step st)

theorem Follows.inv {W V : World} (hI : Inv W) (h : Follows W V) : Inv V := by
  induction h with
  | refl => exact hI
  | step st _ hplain hids ih => exact ih.step st hplain hids

@[simp] theorem Tracker.record_purge (t : Tracker) (k : ClaimKey) : t.purge.record k = .unknown :=
  rfl

namespace Inv

variable {W : World} {s : Store}

theorem reads_back (hI : Inv W) {c : Handed} (hc : c ∈ W.handed) (hlen : c.sent.size < 2 ^ 64)
    (hacc : ((Action.isAccessible c.claim.resource).exec W.store).1 = .ok true) :
    (Action.exportAll c.claim).exec W.store = (.ok c.sent, W.store) ∧
      (Action.size c.claim).exec W.store = (.ok c.sent.size, W.store) := by
  obtain ⟨box, p, i, hbox, hp, hr, hf, hst⟩ := hI.found hc hacc
  have hopen := Action.exec_openContent hbox hp hr hI.sound hf
  obtain ⟨ρ, hρ⟩ := hst.readToEnd hlen
  refine ⟨Action.exec_exportAll (Action.exec_read hopen (by have := hst.fits; omega)) hρ, ?_⟩
  rw [Action.exec_size fun _ => Action.exec_sizeOfResource hbox hp hr hI.sound hf,
    hst.size_eq hlen]

theorem purgeable (hI : Inv W) : W.store.Purgeable where
  layout := hI.layout
  sound := hI.sound
  roots c hc p hp := by
    -- a root holds its first section, so it is a directory
    have h0 := hI.sections c hc p hp 0 (hI.layout.sections c hc)
    simpa using hI.sound.above _ _ h0 p.length (by simp)

/-- A world purged, with nothing handed out, satisfies the invariant. -/
theorem purged (hI : Inv W) (h : W.store.Purged s) : Inv ⟨s, [], []⟩ where
  layout := (h.purgeable hI.purgeable).layout
  running := by simpa [h.repo, Repo.purged] using hI.running
  appendable := by simpa [h.repo, Repo.purged] using hI.appendable
  sound := h.disk.sound
  sections c hc p hp j hj := by
    rw [h.below hc hp _ (below_append p (by simp))]
    exact if_pos ⟨j, hj, rfl⟩
  files_nodup := List.nodup_nil
  files_inj := by simp
  numbered := by simp
  placed := by simp
  unused c hc p hp sec t j _ _ :=
    ⟨h.node?_deeper hc hp _ _ _, h.node?_deeper hc hp _ _ _, by simp⟩
  streams_nodup := by simp [h.repo, Repo.purged]
  writable k := by simp [h.repo, Repo.purged, Repo.registered, Tracker.Record.unknown, Lifecycle.isWritable]
  stream_file := by simp [h.repo, Repo.purged]
  pool := by simp [h.repo, Repo.purged, Fifo.clear]
  holders k := by simp [h.repo, Repo.purged, Fifo.clear, Repo.registered]
  stored := by simp
  cells := by simp
  writer := by simp
  queued := by simp [h.repo, Repo.purged, Tracker.purge, Fifo.clear]
  binned := by simp [h.repo, Repo.purged, Container.emptied, Fifo.clear]
  filed := by simp [h.repo, Repo.purged, Container.emptied, Fifo.clear, Container.Filed]

end Inv

/-! ## Creating after a purge -/

theorem Gate.mustWait_of_unarchived {g : Gate} (hg : g.archived = 0) (reading : IoResult Nat)
    (now : Nat) : (g.mustWait reading now).1 = false := by
  unfold Gate.mustWait
  split
  · rfl
  · -- a new reading keeps the count
    have : (if g.stale now then g.record reading now else g).archived = 0 := by
      split
      · unfold Gate.record
        split <;> exact hg
      · exact hg
    simp [this]

theorem Repo.container?_setContainer {r : Repo} {b : Container} (hb : (r.container? b.name).isSome) :
    (r.setContainer b).container? b.name = some b := by
  obtain ⟨c, hc⟩ := Option.isSome_iff_exists.1 hb
  have hcb : c.name = b.name := by simpa using List.find?_some hc
  unfold Repo.container? Repo.setContainer at *
  rw [List.find?_map]
  have hpred : ((fun c => c.name == b.name) ∘ fun c' => if c'.name == b.name then b else c') =
      fun c => c.name == b.name := by
    funext c'
    by_cases h : c'.name = b.name <;> simp [h]
  rw [hpred, hc]
  simp [hcb]

namespace Action

variable {s : Store}

theorem exec_firstOpen_of_unarchived {c : Container} (hc : s.repo.container? c.name = some c)
    (hg : c.gate.archived = 0) (rest : List String) :
    ∃ box s', (firstOpen (c.name :: rest)).exec s = (.ok (some box), s') := by
  have hw := Gate.mustWait_of_unarchived hg (s.repo.usable s.host.disk c) s.host.now
  rcases hm : c.gate.mustWait (s.repo.usable s.host.disk c) s.host.now with ⟨w, g⟩
  rw [hm] at hw
  subst hw
  have hfind : (s.repo.setContainer { c with gate := g }).container? c.name =
      some { c with gate := g } :=
    Repo.container?_setContainer (b := { c with gate := g }) (by simp [hc])
  refine ⟨{ c with gate := g }, { s with repo := s.repo.setContainer { c with gate := g } }, ?_⟩
  simp [firstOpen, mustWait, exec_bind, exec_map, exec_container, hc, hm, setContainer, hfind]

theorem exec_selectContainer_of_unarchived (hL : Layout s.repo.containers)
    (hne : s.repo.containers ≠ []) (hg : ∀ c ∈ s.repo.containers, c.gate.archived = 0)
    (index : Nat) : ∃ box s', (selectContainer index).exec s = (.ok (some box), s') := by
  unfold selectContainer
  rw [exec_bind, exec_repo]
  obtain ⟨m, hm⟩ : ∃ m, s.repo.containers.length = m + 1 :=
    ⟨_, (Nat.succ_pred_eq_of_pos (List.length_pos_iff.2 hne)).symm⟩
  have hi : index % (m + 1) < s.repo.containers.length := hm ▸ Nat.mod_lt _ (by omega)
  have hfirst : (s.repo.containers.map (·.name)).getD ((index % (m + 1) + 0) % (m + 1)) "" =
      s.repo.containers[index % (m + 1)].name := by
    simp [List.getD_eq_getElem?_getD, hi]
  simp only [List.length_map, hm, List.range_succ_eq_map, List.map_cons, hfirst]
  exact exec_firstOpen_of_unarchived (hL.find?_name (List.getElem_mem hi))
    (hg _ (List.getElem_mem hi)) _

/-- After a purge of a running repository with a container and a number left to draw, `create`
hands out a claim: the pool is empty, every gate lets creators through, and the section the new
claim goes to is an empty directory. -/
theorem exec_create_after_purge {W : World} (hI : Inv W) (h : W.store.Purged s)
    (hne : s.repo.containers ≠ []) (hids : s.repo.ids.value + 1 < 2 ^ 64) (lossTolerant : Bool) :
    ∃ c s', (create lossTolerant).exec s = (.ok (.claim c), s') := by
  have hdown : s.repo.shutDown = false := by simpa [h.repo, Repo.purged] using hI.running.1
  have hpool : s.repo.pool.items = [] := by simp [h.repo, Repo.purged, Fifo.clear]
  have hL := (h.purgeable hI.purgeable).layout
  obtain ⟨box, s2, hsel⟩ := exec_selectContainer_of_unarchived
    (s := { s with repo := { s.repo with ids := ⟨s.repo.ids.value + 1⟩ } }) hL hne
    (fun c hc => (h.cleared hc).1)
    (s.repo.ids.value + 1)
  obtain ⟨hreg, hmem⟩ := selectContainer_regated (s.repo.ids.value + 1)
    { s with repo := { s.repo with ids := ⟨s.repo.ids.value + 1⟩ } } hL.names
  rw [hsel] at hreg hmem
  obtain ⟨c, hc, hname, hroot, hsec⟩ := hreg.mem (hmem box rfl)
  obtain ⟨p, hp⟩ := Option.isSome_iff_exists.1 (hL.rooted c hc)
  have hdisk : s2.host.disk = s.host.disk := by rw [hreg.host]
  have hstreams : s2.repo.streams = [] := by
    obtain ⟨g, hg2⟩ := hreg.repo
    rw [hg2]
    simp [h.repo, Repo.purged]
  rw [exec_create_of_empty s hdown hpool hids lossTolerant, hsel]
  refine ⟨_, _, exec_createIn s2 rfl (hroot ▸ hp) (hdisk ▸ h.disk.sound) ?_ ?_ ?_⟩
  · -- the claim's section is one of the empty sections laid out
    rw [hdisk, h.below hc hp _ (below_append p (by simp)), if_pos]
    exact ⟨(s.repo.ids.value + 1) % c.sections, Nat.mod_lt _ (hL.sections c hc),
      by simp [Container.sectionName, hsec]⟩
  · rw [livePlace, hdisk]
    exact h.node?_deeper hc hp _ _ []
  · simp [Repo.registered, hstreams]

end Action

/-! ## Shutting down -/

theorem Store.Purgeable.congr {s s' : Store} (hP : s.Purgeable) (f : Container → Container)
    (hf : ∀ c, (f c).name = c.name ∧ (f c).root = c.root ∧ (f c).sections = c.sections)
    (hc : s'.repo.containers = s.repo.containers.map f) (hd : s'.host.disk = s.host.disk) :
    s'.Purgeable where
  layout := hc ▸ hP.layout.of_map f hf
  sound := hd ▸ hP.sound
  roots c hc' p hp := by
    rw [hc] at hc'
    obtain ⟨b, hb, rfl⟩ := List.mem_map.1 hc'
    rw [hd]
    exact hP.roots b hb p ((hf b).2.1 ▸ hp)

theorem Action.exec_shutdown (s : Store) (h : s.repo.shutDown = false) :
    shutdown.exec s = (.ok (), Store.streamsClosed { s with repo := { s.repo with
      shutDown := true, background := none,
      containers := s.repo.containers.map fun c => { c with gate := c.gate.releaseAll } } }) := by
  simp [shutdown, exec_bind, h, exec_closeAllStreams]

theorem Action.exec_shutdown_of_shutDown (s : Store) (h : s.repo.shutDown = true) :
    shutdown.exec s = (.ok (), s) := by
  simp [shutdown, exec_bind, h]

theorem Action.shutdown_keeps (s : Store) :
    (shutdown.exec s).2.host.disk = s.host.disk ∧
      (shutdown.exec s).2.repo.containers.map (·.root) = s.repo.containers.map (·.root) := by
  cases h : s.repo.shutDown
  · simp [exec_shutdown s h, Store.streamsClosed, Function.comp_def]
  · simp [exec_shutdown_of_shutDown s h]

theorem Store.Purgeable.shutdown {s : Store} (hP : s.Purgeable) :
    (Action.shutdown.exec s).2.Purgeable := by
  cases h : s.repo.shutDown
  · rw [Action.exec_shutdown s h]
    exact hP.congr (fun c => { c with gate := c.gate.releaseAll }) (fun c => ⟨rfl, rfl, rfl⟩) rfl
      (by simp [Store.streamsClosed])
  · rw [Action.exec_shutdown_of_shutDown s h]
    exact hP

theorem Store.Purged.shutDown {s s' : Store} (h : s.Purged s') : s'.repo.shutDown = s.repo.shutDown := by
  rw [h.repo]
  rfl

theorem Action.closeAll_shutdown (s : Store) :
    (shutdown.exec s).2.host.closeAll (shutdown.exec s).2.repo.streams =
      s.host.closeAll s.repo.streams := by
  cases h : s.repo.shutDown
  · simp [exec_shutdown s h, Store.streamsClosed, Host.closeAll]
  · rw [exec_shutdown_of_shutDown s h]

/-- A purge starts from the store a run reached, or from that store shut down: either way the
roots and the disk are the run's, and the streams a purge closes end as the run's would. -/
theorem purge_start {W : World} {s0 : Store}
    (h0 : s0 = W.store ∨ s0 = (Action.shutdown.exec W.store).2) :
    s0.repo.containers.map (·.root) = W.store.repo.containers.map (·.root) ∧
      s0.host.disk = W.store.host.disk ∧
      s0.host.closeAll s0.repo.streams = W.store.host.closeAll W.store.repo.streams := by
  rcases h0 with rfl | rfl
  · exact ⟨rfl, rfl, rfl⟩
  · exact ⟨(Action.shutdown_keeps _).2, (Action.shutdown_keeps _).1, Action.closeAll_shutdown _⟩

/-! ## Purging a repository -/

/-- A purge that ends well, of the store a run reached or of that store shut down, leaves each
root holding exactly its empty section directories and every other place as it was; no
archived file counted or queued, no claim binned, pooled or queued for destruction, no stream
open, so that every writer handed out before fails with a broken pipe, and no record. A second
purge changes nothing but the order in which the disk lists its entries. A repository left
running works again: the purged world satisfies the invariant, `create` hands out a claim, and
every claim handed out afterwards reads back what was written through it. A repository shut
down stays so, and `create` refuses. -/
theorem purge_resets_and_is_idempotent {W : World} (hI : Inv W) {s0 s : Store}
    (h0 : s0 = W.store ∨ s0 = (Action.shutdown.exec W.store).2)
    (h : Action.purge.exec s0 = (.ok (), s)) :
    (∀ c ∈ s.repo.containers, ∀ p, place? c.root = some p → ∀ q, Below p q →
      s.host.disk.node? q = if ∃ j < c.sections, q = p ++ [toString j] then some .dir else none) ∧
    (∀ q, (∀ c ∈ W.store.repo.containers, ∀ p, place? c.root = some p → ¬ Below p q) →
      s.host.disk.node? q = W.store.host.disk.node? q) ∧
    (∀ c ∈ s.repo.containers, c.gate.archived = 0 ∧ c.oldest = 0 ∧
      c.reclaimable.items = [] ∧ c.archived.items = []) ∧
    s.repo.pool.items = [] ∧ s.repo.streams = [] ∧
    (∀ c ∈ W.handed, ∀ w, c.phase = .writing w → ∀ bytes, (Action.writeWith w bytes).exec s =
      (.ok (.error .streamClosed, { w with failed := true }), s)) ∧
    s.repo.tracker.records = [] ∧ s.repo.tracker.queue.items = [] ∧
    (∃ s', (Action.purge >>= fun _ => Action.purge).exec s0 = (.ok (), s') ∧ s'.Same s) ∧
    (s.repo.shutDown = false → Inv ⟨s, [], []⟩ ∧
      (s.repo.containers ≠ [] → s.repo.ids.value + 1 < 2 ^ 64 → ∀ lossTolerant,
        ∃ c s', (Action.create lossTolerant).exec s = (.ok (.claim c), s')) ∧
      ∀ V, Follows ⟨s, [], []⟩ V → ∀ c ∈ V.handed, c.sent.size < 2 ^ 64 →
        ((Action.isAccessible c.claim.resource).exec V.store).1 = .ok true →
        (Action.exportAll c.claim).exec V.store = (.ok c.sent, V.store) ∧
          (Action.size c.claim).exec V.store = (.ok c.sent.size, V.store)) ∧
    (s.repo.shutDown = true → ∀ lossTolerant,
      (Action.create lossTolerant).exec s = (.error .shutdown, s)) := by
  obtain ⟨hroots, hdisk, hclosed⟩ := purge_start h0
  have hP : s0.Purgeable := by
    rcases h0 with rfl | rfl
    · exact hI.purgeable
    · exact hI.purgeable.shutdown
  have hs := Action.purged_of_ok hP h
  refine ⟨fun c hc p hp q hq => hs.below hc hp q hq,
    fun q hq => (hs.disk.outside q ?_).trans (by rw [hdisk]), fun c hc => hs.cleared hc,
    by simp [hs.repo, Repo.purged, Fifo.clear], by simp [hs.repo, Repo.purged], ?_,
    by simp [hs.repo, Repo.purged, Tracker.purge],
    by simp [hs.repo, Repo.purged, Tracker.purge, Fifo.clear], Action.exec_purge_twice hP h, ?_,
    fun hdown lt => Action.exec_create_of_shutDown s lt hdown⟩
  · intro e he hb
    obtain ⟨c, hc, hp, -⟩ := Container.mem_dirsWith.1 he
    have hmem : c.root ∈ W.store.repo.containers.map (·.root) :=
      hroots ▸ List.mem_map_of_mem (f := Container.root) hc
    obtain ⟨c', hc', hroot⟩ := List.mem_map.1 hmem
    exact hq c' hc' e.1 (by rw [hroot]; exact hp) hb
  · -- the writer's stream was open, and the purge closed it
    intro c hc w hw bytes
    obtain ⟨-, hstream, -, hfin⟩ := hI.writer c hc w hw
    have hclosed' : (s.host.stream w.stream).closed = true := by
      rw [hs.host]
      show ((s0.host.closeAll s0.repo.streams).stream w.stream).closed = true
      rw [hclosed]
      exact Host.closed_closeAll W.store.host hstream
    exact Action.exec_writeWith_of_closed hfin hclosed' bytes
  · -- a purge that leaves the repository running started from the run's own store
    intro hrun
    obtain rfl : s0 = W.store := h0.resolve_right fun hdown => by
      have hsd := hs.shutDown
      rw [hrun, hdown, Action.shutDown_shutdown] at hsd
      cases hsd
    have hI' := hI.purged hs
    exact ⟨hI', fun hne hids lt => Action.exec_create_after_purge hI hs hne hids lt,
      fun V hV c hc hlen hacc => (hV.inv hI').reads_back hc hlen hacc⟩

/-! ## A repository over one root -/

theorem keyed_of_root_c {s : Store} (hroots : s.repo.containers.map (·.root) = ["c"])
    (hk : s.host.disk.KeyedBelow ["work", "c"]) :
    ∀ c ∈ s.repo.containers, ∀ p, place? c.root = some p → s.host.disk.KeyedBelow p := by
  intro c hc p hp
  have hc' : c.root = "c" := by simpa [hroots] using List.mem_map_of_mem (f := (·.root)) hc
  rw [hc', show place? "c" = some ["work", "c"] by decide] at hp
  cases hp
  exact hk

/-- `pooledWorld` with a claim created and two bytes written through its writer, still open. -/
def writingWorld : World := pooledWorld.run [.create false, .write 0, .send 0 ⟨#[1, 2]⟩]

theorem writingWorld_reachable : Reachable writingWorld :=
  .step (.send 0 ⟨#[1, 2]⟩) (.step (.write 0) (.step (.create false) pooledWorld_reachable trivial
    fun _ => by decide +kernel) trivial nofun) trivial nofun

/-- A repository whose claim is still being written purges well; purging twice leaves the same
tree, and `create` hands out a claim again. -/
theorem writing_world_purged :
    ∃ s, Action.purge.exec writingWorld.store = (.ok (), s) ∧
      (∃ s', (Action.purge >>= fun _ => Action.purge).exec writingWorld.store = (.ok (), s') ∧
        s'.Same s) ∧
      ∃ c s', (Action.create false).exec s = (.ok (.claim c), s') := by
  have hI := writingWorld_reachable.inv
  obtain ⟨s, hrun, hs⟩ := Action.exec_purge hI.purgeable
    (keyed_of_root_c (by decide +kernel) (by unfold KeyedBelow; decide +kernel))
  have H := purge_resets_and_is_idempotent hI (.inl rfl) hrun
  have hne : s.repo.containers ≠ [] := by
    rw [hs.repo]
    simpa [Repo.purged] using (show writingWorld.store.repo.containers ≠ [] by decide +kernel)
  have hids : s.repo.ids.value + 1 < 2 ^ 64 := by
    rw [hs.repo]
    exact (show writingWorld.store.repo.ids.value + 1 < 2 ^ 64 by decide +kernel)
  have hup : s.repo.shutDown = false := hs.shutDown.trans hI.running.1
  exact ⟨s, hrun, H.2.2.2.2.2.2.2.2.1, (H.2.2.2.2.2.2.2.2.2.1 hup).2.1 hne hids false⟩

/-- A repository shut down purges well, but hands out nothing afterwards. -/
theorem shut_down_purge_creates_nothing :
    ∃ s, Action.purge.exec (Action.shutdown.exec liveWorld.store).2 = (.ok (), s) ∧
      (Action.create false).exec s = (.error .shutdown, s) := by
  have hI := liveWorld_reachable.inv
  have hkeep := Action.shutdown_keeps liveWorld.store
  have hroots : (Action.shutdown.exec liveWorld.store).2.repo.containers.map (·.root) = ["c"] := by
    rw [hkeep.2]
    decide +kernel
  have hk : (Action.shutdown.exec liveWorld.store).2.host.disk.KeyedBelow ["work", "c"] := by
    rw [hkeep.1]
    unfold KeyedBelow
    decide +kernel
  obtain ⟨s, hrun, hs⟩ := Action.exec_purge hI.purgeable.shutdown (keyed_of_root_c hroots hk)
  exact ⟨s, hrun, Action.exec_create_of_shutDown s false
    (by rw [hs.shutDown]; exact Action.shutDown_shutdown _)⟩

end ClaimStore
