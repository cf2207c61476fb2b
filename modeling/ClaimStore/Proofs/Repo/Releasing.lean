import ClaimStore.Proofs.Repo.Aborting
/-!
# A failed creation leaves no trace

`create` registers the new resource claim with the tracker before its file exists, after the
pool phase has dropped the pooled claims it could no longer hand out and after the id counter
and the containers' gates have been asked. When the file cannot be opened, a freeze and a
decrement undo the registration. `failed_create_leaves_no_trace` says what is left: no stream,
content claim or claimant was added (`Store.Unclaimed`), the new claim ends frozen with the
claimants it had, and a claim nobody held is forgotten, offered to the destruction queue once,
and still forgotten after the next round of destruction. What that round does with its file
depends on the disk: a section that is a file makes the removal fail
(`failed_create_claim_fails_destruction`).
-/

set_option autoImplicit false

namespace ClaimStore

open ClaimStore.Claim ClaimStore.FileSystem

/-! ## Pooled claims that may be handed out again -/

/-- Whether `create` may hand out a pooled resource claim again: its stream is still registered
and it is still writable. -/
def Repo.reusable (r : Repo) (c : Resource) : Bool :=
  (r.streamOf? c).isSome && (r.tracker.state c).isWritable

theorem Repo.reusable_congr (r : Repo) {c c' : Resource} (h : c.key = c'.key) :
    r.reusable c = r.reusable c' := by
  simp only [Repo.reusable, Repo.streamOf?, Tracker.state, h]

theorem Repo.reusable_of_drop (r : Repo) (q : Fifo (Resource × Nat)) {c x : Resource}
    (hk : x.key ≠ c.key) :
    ({ r with pool := q, streams := r.streams.filter (·.1 != c.key),
              tracker := (r.tracker.freeze c).2 } : Repo).reusable x = r.reusable x := by
  have hfind : (r.streams.filter (·.1 != c.key)).find? (·.1 == x.key) = r.streams.find? (·.1 == x.key) := by
    rw [List.find?_filter]
    congr 1
    funext e
    by_cases he : e.1 = x.key <;> simp [he, hk]
  simp only [reusable, streamOf?, hfind, Tracker.state, Tracker.record_freeze, hk, false_and,
    ↓reduceIte]

theorem Host.with_streams_elim_close (h : Host) (o : Option Nat) (st : Array Stream) :
    { o.elim h h.close with streams := st } = { h with streams := st } := by
  cases o <;> rfl

theorem Inv.reusable_of_pooled {W : World} (hI : Inv W) {c : Resource} {len : Nat}
    (hc : (c, len) ∈ W.store.repo.pool.items) : W.store.repo.reusable c = true := by
  have hreg := hI.pooled_registered hc
  have hs : (W.store.repo.streamOf? c).isSome = true := by
    cases h : W.store.repo.streamOf? c with
    | none => rw [Repo.streamOf?_eq_none] at h; simp_all
    | some n => rfl
  simp only [Repo.reusable, hs, Tracker.state, ← hI.writable, hreg, Bool.and_self]

/-! ## The pool phase -/

namespace Action

theorem takePooled_ok (fuel : Nat) (s : Store) : ∃ o, ((takePooled fuel).exec s).1 = .ok o := by
  induction fuel generalizing s with
  | zero => exact ⟨none, rfl⟩
  | succ fuel ih =>
    rw [takePooled, exec_bind, exec_repo]
    dsimp only
    split
    · exact ⟨none, rfl⟩
    · simp only [exec_bind, exec_modifyRepo]
      split
      · simp [exec_map]
      · simp only [exec_bind, exec_retireStream, exec_tracking]
        exact ih _

/-- A pool phase that hands out nothing has dropped a prefix of the pool, no entry of which was
reusable, retiring their streams and freezing them in turn; it changes nothing but the pool, the
stream table, the tracker and the host's streams, and it empties the pool given fuel enough. -/
theorem exec_takePooled_of_none {fuel : Nat} {s s' : Store}
    (h : (takePooled fuel).exec s = (.ok none, s')) :
    ∃ dropped : List (Resource × Nat),
      s.repo.pool.items = dropped ++ s'.repo.pool.items ∧
      (∀ x ∈ dropped, s.repo.reusable x.1 = false) ∧
      s'.repo.tracker = dropped.foldl (fun t x => (t.freeze x.1).2) s.repo.tracker ∧
      (∀ x ∈ s'.repo.streams, x ∈ s.repo.streams) ∧
      s'.repo = { s.repo with pool := s'.repo.pool, streams := s'.repo.streams,
                              tracker := s'.repo.tracker } ∧
      s'.host = { s.host with streams := s'.host.streams } ∧
      (s.repo.pool.items.length ≤ fuel → s'.repo.pool.items = []) := by
  induction fuel generalizing s with
  | zero =>
    simp only [takePooled, exec_pure, Prod.mk.injEq] at h
    obtain rfl := h.2
    refine ⟨[], rfl, by simp, rfl, fun x hx => hx, rfl, rfl, fun hlen => ?_⟩
    simpa using hlen
  | succ fuel ih =>
    rw [takePooled, exec_bind, exec_repo] at h
    dsimp only at h
    cases hpool : s.repo.pool.items with
    | nil =>
      have hpoll : s.repo.pool.poll.1 = none := by simp [Fifo.poll, hpool]
      generalize s.repo.pool.poll = P at hpoll h
      obtain ⟨o, q⟩ := P
      cases hpoll
      simp only [exec_pure, Prod.mk.injEq] at h
      obtain rfl := h.2
      refine ⟨[], by simp [hpool], by simp, rfl, fun x hx => hx, rfl, rfl, fun _ => hpool⟩
    | cons x rest =>
      obtain ⟨c, len⟩ := x
      have hpoll : s.repo.pool.poll = (some (c, len), s.repo.pool.poll.2) := by simp [Fifo.poll, hpool]
      rw [hpoll] at h
      dsimp only at h
      simp only [exec_bind, exec_modifyRepo] at h
      split at h
      · -- a reusable entry is handed out
        simp [exec_map] at h
      · next hre =>
        simp only [exec_bind, exec_retireStream, exec_tracking] at h
        obtain ⟨dropped, hitems, hnot, htr, hsub, hrepo, hhost, hempty⟩ := ih h
        have hrest : s.repo.pool.poll.2.items = rest := by simp [Fifo.poll, hpool]
        rw [hrest] at hitems
        refine ⟨(c, len) :: dropped, by rw [hitems]; rfl, ?_, htr, fun x hx => ?_, hrepo, ?_,
          fun hlen => hempty (by simp [hpool] at hlen ⊢; omega)⟩
        · -- an entry dropped later has another key, which the first drop left alone
          intro x hx
          rcases List.mem_cons.1 hx with rfl | hx
          · simpa [Repo.reusable] using hre
          · have hx' := hnot x hx
            by_cases hk : x.1.key = c.key
            · rw [Repo.reusable_congr _ hk]
              simpa [Repo.reusable] using hre
            · rwa [Repo.reusable_of_drop _ _ hk] at hx'
        · exact (List.mem_filter.1 (hsub x hx)).1
        · rw [hhost, Host.with_streams_elim_close]

end Action

/-! ## Asking the gates -/

/-- A store whose containers were replaced by ones of the same names, and nothing else. -/
structure Store.Recontained (s s' : Store) : Prop where
  host : s'.host = s.host
  repo : s'.repo = { s.repo with containers := s'.repo.containers }
  names : s'.repo.containers.map (·.name) = s.repo.containers.map (·.name)

namespace Store.Recontained

variable {s s' s'' : Store}

theorem refl (s : Store) : Recontained s s := ⟨rfl, rfl, rfl⟩

theorem trans (h : Recontained s s') (h' : Recontained s' s'') : Recontained s s'' :=
  ⟨h'.host.trans h.host, by rw [h'.repo, h.repo], h'.names.trans h.names⟩

theorem setContainer (s : Store) (c : Container) :
    Recontained s { s with repo := s.repo.setContainer c } := by
  refine ⟨rfl, rfl, ?_⟩
  simp only [Repo.setContainer, List.map_map]
  refine List.map_congr_left fun c' _ => ?_
  simp only [Function.comp_apply]
  split
  · next h => exact (beq_iff_eq.1 h).symm
  · rfl

end Store.Recontained

namespace Action

theorem mustWait_recontained (name : String) (s : Store) :
    Store.Recontained s ((mustWait name).exec s).2 ∧
      ∀ e, ((mustWait name).exec s).1 = .error e → e = .unknownContainer name := by
  unfold mustWait
  rw [exec_bind, exec_container]
  cases hc : s.repo.container? name with
  | none => exact ⟨.refl s, fun e h => by cases h; rfl⟩
  | some c =>
    simp only [exec_bind, exec_repo, exec_host, setContainer, exec_modifyRepo, exec_pure]
    exact ⟨.setContainer s _, fun e h => by cases h⟩

/-- Asking the gates in turn changes containers' gates only; the container it answers is one of
the repository's afterwards, and it fails only for an unknown name. -/
theorem firstOpen_recontained (l : List String) (s : Store) :
    Store.Recontained s ((firstOpen l).exec s).2 ∧
      (∀ b, ((firstOpen l).exec s).1 = .ok (some b) → b ∈ ((firstOpen l).exec s).2.repo.containers) ∧
      ∀ e, ((firstOpen l).exec s).1 = .error e → ∃ n, e = .unknownContainer n := by
  induction l generalizing s with
  | nil => exact ⟨.refl s, fun b h => (by cases h), fun e h => by cases h⟩
  | cons name rest ih =>
    obtain ⟨hw, hwe⟩ := mustWait_recontained name s
    rw [firstOpen, exec_bind]
    rcases hm : (mustWait name).exec s with ⟨_ | w, s1⟩
    · rw [hm] at hw hwe
      exact ⟨hw, fun b h => (by cases h), fun e h => ⟨name, hwe e (by cases h; rfl)⟩⟩
    · rw [hm] at hw
      cases w with
      | false =>
        simp only [Bool.not_false, ite_true, exec_bind, exec_container]
        cases hc : s1.repo.container? name with
        | none => exact ⟨hw, fun b h => (by cases h), fun e h => ⟨name, by cases h; rfl⟩⟩
        | some b =>
          refine ⟨hw, fun b' h => ?_, fun e h => (by cases h)⟩
          cases h
          exact (Repo.mem_of_container? hc).1
      | true =>
        obtain ⟨h1, h2, h3⟩ := ih s1
        exact ⟨hw.trans h1, h2, h3⟩

theorem selectContainer_recontained (index : Nat) (s : Store) :
    Store.Recontained s ((selectContainer index).exec s).2 ∧
      (∀ b, ((selectContainer index).exec s).1 = .ok (some b) →
        b ∈ ((selectContainer index).exec s).2.repo.containers) ∧
      ∀ e, ((selectContainer index).exec s).1 = .error e → ∃ n, e = .unknownContainer n := by
  unfold selectContainer
  rw [exec_bind, exec_repo]
  exact firstOpen_recontained _ s

/-! ## How `create` fails -/

theorem exec_create_of_shutDown (s : Store) (lt : Bool) (h : s.repo.shutDown = true) :
    (create lt).exec s = (.error .shutdown, s) := by
  simp [create, exec_bind, h]

theorem shutDown_shutdown (s : Store) : (shutdown.exec s).2.repo.shutDown = true := by
  unfold shutdown
  rw [exec_bind, exec_repo]
  cases h : s.repo.shutDown <;> simp [h, exec_bind, closeAllStreams]

theorem createIn_error {box : Container} {index : Nat} {lt : Bool} {s s' : Store} {e : StoreError}
    (h : (createIn box index lt).exec s = (.error e, s')) :
    let c : Resource := ⟨box.name, box.sectionName index, formatId s.host.now index, lt⟩
    ∃ ioe, e = .io ioe ∧ s.host.openStream (box.claimPath c) = .error ioe ∧
      s' = { s with repo := { s.repo with tracker :=
        (((s.repo.tracker.increment c true).2.freeze c).2.decrement c).2 } } := by
  intro c
  unfold createIn at h
  simp only [exec_bind, exec_host, exec_tracking] at h
  split at h
  · next ioe hopen =>
    simp only [exec_bind, exec_tracking, exec_throw, Prod.mk.injEq, Except.error.injEq] at h
    obtain ⟨rfl, rfl⟩ := h
    exact ⟨ioe, rfl, hopen, rfl⟩
  · simp [exec_bind, exec_map, exec_newClaim] at h

/-- A `create` that fails without being shut down has handed out nothing from the pool, and
then numbering the claim overflowed, choosing its container failed, or making it failed. -/
theorem create_error_cases {lt : Bool} {s s' : Store} {e : StoreError}
    (hsd : s.repo.shutDown = false) (h : (create lt).exec s = (.error e, s')) :
    ∃ s1, (takePooled s.repo.pool.size).exec s = (.ok none, s1) ∧
      let s2 : Store := { s1 with repo := { s1.repo with ids := s1.repo.ids.next.2 } }
      (s1.repo.ids.next.1 = none ∧ s' = s2 ∧ e = .crash IdCounter.overflowMessage) ∨
      ∃ index, s1.repo.ids.next.1 = some index ∧
        ((selectContainer index).exec s2 = (.error e, s') ∨
          ∃ box s3, (selectContainer index).exec s2 = (.ok (some box), s3) ∧
            (createIn box index lt).exec s3 = (.error e, s')) := by
  unfold create at h
  simp only [exec_bind, exec_repo, hsd, Bool.false_eq_true, ↓reduceIte] at h
  obtain ⟨o, ho⟩ := takePooled_ok s.repo.pool.size s
  rcases htp : (takePooled s.repo.pool.size).exec s with ⟨_ | o, s1⟩
  · rw [htp] at ho
    cases ho
  rw [htp] at h
  cases o with
  | some x => simp [exec_map, exec_newClaim] at h
  | none =>
    refine ⟨s1, rfl, ?_⟩
    simp only [exec_bind, exec_repo, exec_modifyRepo] at h
    intro s2
    cases hn : s1.repo.ids.next.1 with
    | none =>
      simp only [hn, exec_throw, Prod.mk.injEq, Except.error.injEq] at h
      exact .inl ⟨rfl, h.2.symm, h.1.symm⟩
    | some index =>
      refine .inr ⟨index, rfl, ?_⟩
      simp only [hn, exec_bind] at h
      rcases hsel : (selectContainer index).exec s2 with ⟨_ | b, s3⟩
      · rw [hsel] at h
        simp only [Prod.mk.injEq, Except.error.injEq] at h
        obtain ⟨rfl, rfl⟩ := h
        exact .inl rfl
      · rw [hsel] at h
        cases b with
        | none => simp at h
        | some box => exact .inr ⟨box, s3, rfl, h⟩

end Action

/-! ## A failed creation leaves no trace -/

/-- How a store stands to an earlier one along a failed creation: the entries `dropped` from the
front of the pool could no longer be reused, and no stream, content claim or claimant was added. -/
structure Store.Unclaimed (s s' : Store) (dropped : List (Resource × Nat)) : Prop where
  streams : ∀ x ∈ s'.repo.streams, x ∈ s.repo.streams
  cells : s'.host.cells = s.host.cells
  claimants : ∀ c, s'.repo.tracker.claimants c = s.repo.tracker.claimants c
  pool : s.repo.pool.items = dropped ++ s'.repo.pool.items
  stale : ∀ x ∈ dropped, s.repo.reusable x.1 = false

namespace Store.Unclaimed

variable {s s' s'' : Store} {dropped : List (Resource × Nat)}

theorem dropped_nil (h : Unclaimed s s' dropped) {W : World} (hW : W.store = s) (hI : Inv W) :
    dropped = [] := by
  subst hW
  cases dropped with
  | nil => rfl
  | cons x rest =>
    have hx : x ∈ W.store.repo.pool.items := by rw [h.pool]; simp
    have := hI.reusable_of_pooled hx
    simp [h.stale x List.mem_cons_self] at this

theorem ids (h : Unclaimed s s' dropped) (ids : IdCounter) :
    Unclaimed s { s' with repo := { s'.repo with ids } } dropped :=
  ⟨h.streams, h.cells, h.claimants, h.pool, h.stale⟩

theorem recontained (h : Unclaimed s s' dropped) (hr : Recontained s' s'') : Unclaimed s s'' dropped := by
  obtain ⟨hhost, hrepo, -⟩ := hr
  have hstreams : s''.repo.streams = s'.repo.streams := by rw [hrepo]
  have htracker : s''.repo.tracker = s'.repo.tracker := by rw [hrepo]
  have hpool : s''.repo.pool = s'.repo.pool := by rw [hrepo]
  exact ⟨hstreams ▸ h.streams, hhost ▸ h.cells, htracker ▸ h.claimants, hpool ▸ h.pool, h.stale⟩

theorem release (h : Unclaimed s s' dropped) (c : Resource) :
    Unclaimed s { s' with repo := { s'.repo with tracker :=
      (((s'.repo.tracker.increment c true).2.freeze c).2.decrement c).2 } } dropped :=
  ⟨h.streams, h.cells, fun x => (Tracker.claimants_release _ c x).trans (h.claimants x), h.pool,
    h.stale⟩

end Store.Unclaimed

theorem Action.unclaimed_of_takePooled {fuel : Nat} {s s' : Store}
    (h : (takePooled fuel).exec s = (.ok none, s')) :
    ∃ dropped, Store.Unclaimed s s' dropped ∧
      s'.repo.tracker = dropped.foldl (fun t x => (t.freeze x.1).2) s.repo.tracker ∧
      s'.host.now = s.host.now ∧ s'.repo.ids = s.repo.ids ∧ s'.repo.containers = s.repo.containers := by
  obtain ⟨dropped, hitems, hnot, htr, hsub, hrepo, hhost, -⟩ := exec_takePooled_of_none h
  have hcells : s'.host.cells = s.host.cells := by rw [hhost]
  have hnow : s'.host.now = s.host.now := by rw [hhost]
  refine ⟨dropped, ⟨hsub, hcells, fun c => ?_, hitems, hnot⟩, htr, hnow, by rw [hrepo], by rw [hrepo]⟩
  rw [htr, Tracker.claimants_foldl_freeze]

/-- A failed `create` leaves no trace: the stream table gains no entry, no content claim or
claimant is added, and the pool loses only a prefix of entries that could not be reused (none
under the invariant). When the new claim's file could not be opened, that claim ends frozen with
the claimants it had; a claim nobody held keeps no record and is offered to the destruction
queue once, and the next round of destruction empties the queue and leaves it forgotten.
After shutdown, `create` fails with `shutdown` and changes nothing. -/
theorem failed_create_leaves_no_trace (s : Store) (lt : Bool) :
    (∀ e s', (Action.create lt).exec s = (.error e, s') →
      ∃ dropped, Store.Unclaimed s s' dropped ∧
        ((∃ W : World, W.store = s ∧ Inv W) → dropped = []) ∧
        ∀ ioe, e = .io ioe → ∃ (c : Resource) (index : Nat),
          s.repo.ids.next.1 = some index ∧ c.id = formatId s.host.now index ∧ c.lossTolerant = lt ∧
          c.container ∈ s.repo.containers.map (·.name) ∧
          s'.repo.tracker.record c.key = ⟨s.repo.tracker.claimants c, .frozen⟩ ∧
          (s.repo.tracker.claimants c = 0 →
            s'.repo.tracker.find? c.key = none ∧
            s'.repo.tracker.queue =
              ((dropped.foldl (fun t x => (t.freeze x.1).2) s.repo.tracker).enqueue c).queue ∧
            (Action.runDestruction.exec s').2.repo.tracker.find? c.key = none ∧
            (Action.runDestruction.exec s').2.repo.tracker.queue.items = [])) ∧
    (Action.create lt).exec (Action.shutdown.exec s).2 =
      (.error .shutdown, (Action.shutdown.exec s).2) := by
  refine ⟨fun e s' h => ?_, Action.exec_create_of_shutDown _ lt (Action.shutDown_shutdown s)⟩
  cases hsd : s.repo.shutDown
  case true =>
    rw [Action.exec_create_of_shutDown s lt hsd, Prod.mk.injEq, Except.error.injEq] at h
    obtain ⟨rfl, rfl⟩ := h
    exact ⟨[], ⟨fun x hx => hx, rfl, fun _ => rfl, rfl, by simp⟩, fun _ => rfl,
      fun ioe hio => by cases hio⟩
  case false =>
  obtain ⟨s1, htp, hcases⟩ := Action.create_error_cases hsd h
  obtain ⟨dropped, hu1, htr, hnow, hids, hboxes⟩ := Action.unclaimed_of_takePooled htp
  have hnil : (∃ W : World, W.store = s ∧ Inv W) → dropped = [] :=
    fun ⟨W, hW, hI⟩ => hu1.dropped_nil hW hI
  rcases hcases with ⟨-, rfl, rfl⟩ | ⟨index, hindex, hsel | ⟨box, s3, hsel, hmk⟩⟩
  · -- numbering overflowed
    exact ⟨dropped, hu1.ids _, hnil, fun ioe hio => by cases hio⟩
  · -- no container could be asked
    obtain ⟨hrc, -, herr⟩ := Action.selectContainer_recontained index
      { s1 with repo := { s1.repo with ids := s1.repo.ids.next.2 } }
    rw [hsel] at hrc herr
    obtain ⟨n, rfl⟩ := herr e rfl
    exact ⟨dropped, (hu1.ids _).recontained hrc, hnil, fun ioe hio => by cases hio⟩
  · -- the new claim's file could not be opened
    obtain ⟨hrc, hmem, -⟩ := Action.selectContainer_recontained index
      { s1 with repo := { s1.repo with ids := s1.repo.ids.next.2 } }
    rw [hsel] at hrc hmem
    dsimp only at hrc hmem
    obtain ⟨ioe, rfl, -, rfl⟩ := Action.createIn_error hmk
    have hbox : box ∈ s3.repo.containers := hmem box rfl
    have hu3 : Store.Unclaimed s s3 dropped := (hu1.ids _).recontained hrc
    have htr3 : s3.repo.tracker = s1.repo.tracker := by rw [hrc.repo]
    have hnow3 : s3.host.now = s.host.now := by rw [hrc.host, ← hnow]
    have hnames : s3.repo.containers.map (·.name) = s.repo.containers.map (·.name) := by
      rw [hrc.names, ← hboxes]
    set c : Resource := ⟨box.name, box.sectionName index, formatId s3.host.now index, lt⟩
    have hcl : s3.repo.tracker.claimants c = s.repo.tracker.claimants c := hu3.claimants c
    refine ⟨dropped, hu3.release c, hnil, fun _ _ => ⟨c, index, by rw [← hids]; exact hindex,
      by show formatId s3.host.now index = _; rw [hnow3], rfl, hnames ▸ List.mem_map_of_mem hbox,
      ?_, fun h0 => ?_⟩⟩
    · -- the claim ends frozen with the claimants it had
      show (((s3.repo.tracker.increment c true).2.freeze c).2.decrement c).2.record c.key = _
      rw [Tracker.record_release, if_pos rfl, ← hcl]
      rfl
    · -- a claim nobody held is forgotten and queued once
      obtain ⟨hfind, hqueue⟩ := Tracker.release_of_unknown s3.repo.tracker c (hcl.trans h0)
      exact ⟨hfind, by rw [hqueue, htr3, htr], Action.runDestruction_forgets _ hfind⟩

/-- The pooled repository with a file in place of its section directory. -/
def sectionFileStore : Store :=
  let s := pooledWorld.store
  let (i, d) := s.host.disk.allocate ⟨#[120]⟩ 0
  { s with host := { s.host with disk := d.set ["work", "c", "0"] (.file i) } }

/-- A section that is a file makes `create` fail on opening the new claim's file; the claim
could not be made and nothing was handed out. -/
theorem section_file_fails_create :
    ((Action.create false).exec sectionFileStore).1 = .error (.io .notADirectory) ∧
      ∃ dropped, Store.Unclaimed sectionFileStore ((Action.create false).exec sectionFileStore).2
        dropped := by
  have h : (Action.create false).exec sectionFileStore =
      (.error (.io .notADirectory), ((Action.create false).exec sectionFileStore).2) :=
    Prod.ext (by decide +kernel) rfl
  obtain ⟨dropped, hu, -⟩ := (failed_create_leaves_no_trace sectionFileStore false).1 _ _ h
  exact ⟨congrArg Prod.fst h, dropped, hu⟩

/-- The claim a failed `create` queued is not disposed of without error: its file's place is
still blocked, and the next round of destruction counts it as failed. -/
theorem failed_create_claim_fails_destruction :
    ((Action.create false).exec sectionFileStore).1 = .error (.io .notADirectory) ∧
      (Action.runDestruction.exec ((Action.create false).exec sectionFileStore).2).1 =
        .ok { failed := 1 } := by
  decide +kernel

end ClaimStore
