import ClaimStore.Proofs.Repo.LiveFiles
/-!
# Resource claims with a stream keep their files

Streams are registered for resource claims by `createIn` alone, after it has made the claim's
file at its live place. Every other action keeps the repository's table of streams or forgets
entries of it (`Action.OpensNone`). While a resource claim has a stream it is writable, so no
destruction takes its file (`Store.Frees`): along every run, a resource claim with a stream has
a file at its live place, the file its stream appends to (`Reachable.live_of_stream`).
-/

set_option autoImplicit false

namespace ClaimStore

open ClaimStore.Claim ClaimStore.FileSystem

namespace Action

/-- Run on any store, the action registers no stream: every entry of the table of streams
afterwards was there before. -/
def OpensNone {α : Type} (a : Action α) : Prop :=
  ∀ s e, e ∈ (a.exec s).2.repo.streams → e ∈ s.repo.streams

namespace OpensNone

variable {α β γ : Type}

theorem of_streams {a : Action α} (h : ∀ s, (a.exec s).2.repo.streams = s.repo.streams) :
    a.OpensNone := fun s _ he => h s ▸ he

protected theorem pure (x : α) : (pure x : Action α).OpensNone := of_streams fun _ => rfl

protected theorem throw (e : StoreError) : (throw e : Action α).OpensNone :=
  of_streams fun _ => rfl

protected theorem bind {x : Action α} {f : α → Action β} (hx : x.OpensNone)
    (hf : ∀ a, (f a).OpensNone) : (x >>= f).OpensNone := by
  intro s e he
  have hxs := hx s e
  rw [exec_bind] at he
  rcases hr : x.exec s with ⟨_ | a, s'⟩ <;> rw [hr] at he hxs
  · exact hxs he
  · exact hxs (hf a s' e he)

protected theorem ite {c : Prop} [Decidable c] {a b : Action α} (ha : a.OpensNone)
    (hb : b.OpensNone) : (if c then a else b).OpensNone := by
  split
  · exact ha
  · exact hb

protected theorem attempt {a : Action α} (ha : a.OpensNone) : (attempt a).OpensNone := by
  intro s e he
  rw [exec_attempt] at he
  exact ha s e he

protected theorem forIn {f : γ → β → Action (ForInStep β)} {l : List γ}
    (hf : ∀ x b, (f x b).OpensNone) (init : β) : (forIn l init f).OpensNone := by
  induction l generalizing init with
  | nil => exact OpensNone.pure init
  | cons x l ih =>
    rw [List.forIn_cons]
    refine (hf x init).bind fun r => ?_
    cases r with
    | done b => exact OpensNone.pure b
    | yield b => exact ih b

protected theorem foldlM {f : β → γ → Action β} {l : List γ} (hf : ∀ b x, (f b x).OpensNone)
    (init : β) : (l.foldlM f init).OpensNone := by
  induction l generalizing init with
  | nil => exact OpensNone.pure init
  | cons x l ih =>
    rw [List.foldlM_cons]
    exact (hf init x).bind ih

end OpensNone

/-! ## The actions of a step other than a create -/

theorem opensNone_repo : repo.OpensNone := OpensNone.of_streams fun _ => rfl

theorem opensNone_host : host.OpensNone := OpensNone.of_streams fun _ => rfl

theorem opensNone_modifyRepo {f : Repo → Repo} (hf : ∀ r e, e ∈ (f r).streams → e ∈ r.streams) :
    (modifyRepo f).OpensNone := fun s e he => hf s.repo e he

theorem opensNone_modifyHost (f : Host → Host) : (modifyHost f).OpensNone :=
  OpensNone.of_streams fun _ => rfl

theorem opensNone_tracking {α : Type} (f : Tracker → α × Tracker) : (tracking f).OpensNone :=
  OpensNone.of_streams fun _ => rfl

theorem opensNone_track (f : Tracker → Tracker) : (track f).OpensNone :=
  OpensNone.of_streams fun _ => rfl

theorem opensNone_ofIo {α : Type} (r : IoResult α) : (ofIo r).OpensNone :=
  OpensNone.of_streams fun _ => by cases r <;> rfl

theorem opensNone_container (name : String) : (container name).OpensNone :=
  OpensNone.of_streams fun s => by
    rw [exec_container]
    split <;> rfl

theorem opensNone_setContainer (c : Container) : (setContainer c).OpensNone :=
  OpensNone.of_streams fun _ => rfl

theorem opensNone_retireStream (c : Resource) (expected : Option Nat) :
    (retireStream c expected).OpensNone := by
  unfold retireStream
  refine opensNone_repo.bind fun r => ?_
  refine OpensNone.ite ((opensNone_modifyRepo fun _ _ he => (List.mem_filter.1 he).1).bind
    fun _ => ?_) ?_
  all_goals
    split
    · exact opensNone_modifyHost _
    · exact OpensNone.pure ()

theorem opensNone_write (c : ClaimRef) : (write c).OpensNone := fun s e he => by
  by_cases h : s.host.cell c.cell < 0 ∧ ∃ n, s.repo.streamOf? c.resource = some n ∧
      (s.host.stream n).written = c.offset
  · obtain ⟨hc, n, hn, hw⟩ := h
    rw [exec_write_of_open s c hc hn hw] at he
    exact he
  · obtain ⟨e', he'⟩ := exec_write_of_not_open s c h
    rw [he'] at he
    exact he

theorem opensNone_writeWith (w : Writer) (bytes : ByteArray) : (writeWith w bytes).OpensNone :=
  OpensNone.of_streams fun s => by rw [exec_writeWith]

theorem opensNone_completeWrite (c : Resource) (stream : Nat) (failed : Bool) :
    (completeWrite c stream failed).OpensNone := by
  unfold completeWrite
  refine opensNone_repo.bind fun r => opensNone_host.bind fun h => ?_
  have hretire : ∀ result : IoResult Unit,
      (retireStream c (some stream) >>= fun _ => tracking (·.freeze c) >>= fun _ =>
        (pure result : Action (IoResult Unit))).OpensNone := fun _ =>
    (opensNone_retireStream _ _).bind fun _ => (opensNone_tracking _).bind fun _ =>
      OpensNone.pure _
  split
  refine OpensNone.ite (OpensNone.ite ?_ (hretire _)) (hretire _)
  split
  · exact (OpensNone.of_streams fun _ => rfl).bind fun _ => OpensNone.pure _
  · exact hretire _

theorem opensNone_endWriter (w : Writer)
    (finish : Writer → Host → Option (IoResult Unit × Bool) × Writer) :
    (endWriter w finish).OpensNone := by
  unfold endWriter
  refine opensNone_host.bind fun h => ?_
  split
  · exact OpensNone.pure _
  · exact (opensNone_completeWrite _ _ _).bind fun _ => OpensNone.pure _

theorem opensNone_abortWriter (w : Writer) : (abortWriter w).OpensNone :=
  (opensNone_endWriter _ _).bind fun _ => OpensNone.pure ()

theorem opensNone_closeWriter (w : Writer) : (closeWriter w).OpensNone :=
  (opensNone_endWriter _ _).bind fun r => opensNone_ofIo r

theorem opensNone_fill (w : Writer) (bytes : ByteArray) : (fill w bytes).OpensNone := by
  unfold fill writeAll
  refine OpensNone.bind ?_ fun x => ?_
  · exact OpensNone.ite (OpensNone.pure _) ((opensNone_writeWith _ _).bind fun _ => OpensNone.pure _)
  · split
    · exact (opensNone_abortWriter _).bind fun _ => OpensNone.throw _
    · exact (opensNone_closeWriter _).bind fun _ => OpensNone.pure _

theorem opensNone_importBytes (c : ClaimRef) (bytes : ByteArray) :
    (importBytes c bytes).OpensNone :=
  (opensNone_write c).bind fun w => opensNone_fill w bytes

theorem opensNone_importPath (c : ClaimRef) (source : String) : (importPath c source).OpensNone := by
  unfold importPath importNode
  refine opensNone_host.bind fun h => (opensNone_ofIo _).bind fun n =>
    (opensNone_write c).bind fun w => ?_
  split
  · exact (opensNone_abortWriter _).bind fun _ => OpensNone.throw _
  · exact opensNone_host.bind fun _ => opensNone_fill _ _

theorem opensNone_read (c : ClaimRef) : (read c).OpensNone :=
  OpensNone.of_streams fun s => by rw [read_snd]

theorem opensNone_pump (r : Reading) (w : Writer) (moved : Nat) :
    ∀ fuel, (pump r w moved fuel).OpensNone
  | 0 => OpensNone.pure _
  | fuel + 1 => by
    rw [pump]
    refine opensNone_host.bind fun h => ?_
    split
    · exact OpensNone.pure _
    · refine OpensNone.ite (OpensNone.pure _) ((opensNone_writeWith _ _).bind fun x => ?_)
      split
      · exact OpensNone.pure _
      · exact opensNone_pump _ _ _ fuel

theorem opensNone_copyClaim (original copy : ClaimRef) : (copyClaim original copy).OpensNone := by
  unfold copyClaim
  refine (opensNone_write copy).bind fun w => (opensNone_read original).attempt.bind fun o => ?_
  split
  · exact (opensNone_abortWriter _).bind fun _ => OpensNone.throw _
  · refine opensNone_host.bind fun h => OpensNone.ite (OpensNone.pure _)
      ((opensNone_pump _ _ _ _).bind fun x => ?_)
    split
    · exact (opensNone_abortWriter _).bind fun _ => OpensNone.throw _
    · exact (opensNone_closeWriter _).bind fun _ => OpensNone.pure _

theorem opensNone_removeResource (c : Resource) : (removeResource c).OpensNone := by
  unfold removeResource
  refine (opensNone_container _).bind fun box => (opensNone_tracking _).bind fun b => ?_
  refine OpensNone.ite (OpensNone.pure _) ((opensNone_retireStream _ _).bind fun _ =>
    opensNone_host.bind fun h => ?_)
  split
  · exact (opensNone_modifyHost _).bind fun _ => (opensNone_track _).bind fun _ => OpensNone.pure _
  · exact (opensNone_track _).bind fun _ => OpensNone.pure _
  · exact (opensNone_track _).bind fun _ => OpensNone.throw _

theorem opensNone_archive (c : Resource) : (archive c).OpensNone := by
  unfold archive
  refine opensNone_repo.bind fun r => OpensNone.ite (OpensNone.pure _) ?_
  refine (opensNone_container _).bind fun box => (opensNone_tracking _).bind fun b => ?_
  refine OpensNone.ite (OpensNone.pure _) ((opensNone_retireStream _ _).bind fun _ =>
    opensNone_host.bind fun h => ?_)
  split
  · refine (opensNone_modifyHost _).bind fun _ => (opensNone_track _).bind fun _ => ?_
    dsimp only
    split
    · exact (opensNone_container _).bind fun _ => (opensNone_setContainer _).bind fun _ =>
        OpensNone.pure _
    · exact OpensNone.pure _
  · exact (opensNone_track _).bind fun _ => OpensNone.throw _

theorem opensNone_destroy (report : Destruction) (c : Resource) : (destroy report c).OpensNone := by
  unfold destroy
  refine opensNone_repo.bind fun r => (OpensNone.attempt ?_).bind fun o => ?_
  · exact OpensNone.ite (opensNone_archive c) (opensNone_removeResource c)
  · split <;> exact OpensNone.pure _

theorem opensNone_archiveOrDestroy (report : Destruction) (name : String) :
    (archiveOrDestroy report name).OpensNone := by
  unfold archiveOrDestroy
  exact (opensNone_container _).bind fun box => (opensNone_setContainer _).bind fun _ =>
    OpensNone.foldlM (fun b c => opensNone_destroy b c) _

theorem opensNone_runDestruction : runDestruction.OpensNone := by
  unfold runDestruction
  exact opensNone_repo.bind fun r => (OpensNone.of_streams fun _ => rfl).bind fun _ =>
    (OpensNone.foldlM (fun b c => opensNone_destroy b c) _).bind fun report =>
      opensNone_repo.bind fun _ => OpensNone.foldlM (fun b name => opensNone_archiveOrDestroy b name) _

theorem opensNone_cleanup : cleanup.OpensNone := by
  unfold cleanup
  refine opensNone_repo.bind fun rp => opensNone_repo.bind fun rp' =>
    (OpensNone.forIn (fun name report => ?_) _).bind fun _ => OpensNone.pure _
  refine (opensNone_container name).bind fun box => opensNone_host.bind fun h =>
    (OpensNone.forIn (fun c report => ?_) _).bind fun _ => OpensNone.pure _
  refine opensNone_repo.bind fun rt => ?_
  split
  · exact OpensNone.pure _
  · refine (OpensNone.attempt ?_).bind fun o => ?_
    · exact OpensNone.ite (opensNone_archive c) (opensNone_removeResource c)
    · split <;> exact OpensNone.pure _

theorem opensNone_expireWith (name : String)
    (pass : Container → Disk → Probe → Nat → Nat → IoResult Expiry × Container × Disk) :
    (expireWith name pass).OpensNone := by
  unfold expireWith
  exact (opensNone_container _).bind fun box => opensNone_repo.bind fun r =>
    opensNone_host.bind fun h => (opensNone_modifyHost _).bind fun _ =>
      (opensNone_setContainer _).bind fun _ => opensNone_ofIo _

theorem opensNone_expireNow (name : String) : (expireNow name).OpensNone := by
  unfold expireNow
  refine (opensNone_expireWith _ _).attempt.bind fun o => opensNone_repo.bind fun r => ?_
  dsimp only
  split
  · refine opensNone_repo.bind fun _ => opensNone_host.bind fun _ =>
      (opensNone_setContainer _).bind fun _ => ?_
    split
    · exact OpensNone.pure _
    · exact OpensNone.throw _
  · split
    · exact OpensNone.pure _
    · exact OpensNone.throw _

theorem opensNone_rollback (c : ClaimRef) : (rollback c).OpensNone := by
  unfold rollback
  refine opensNone_repo.bind fun r => ?_
  have hrest : ∀ u : Unit, (tracking (·.decrement c.resource) >>= fun _ =>
      (removeResource c.resource).attempt >>= fun _ => (pure () : Action Unit)).OpensNone :=
    fun _ => (opensNone_tracking _).bind fun _ => (opensNone_removeResource _).attempt.bind
      fun _ => OpensNone.pure _
  dsimp only
  split
  · exact (opensNone_retireStream _ _).bind fun _ => (opensNone_tracking _).bind fun _ => hrest ()
  · exact hrest ()

end Action

/-! ## A create registers its new claim with a file at its live place -/

theorem Store.live?_of_livePlace? {s : Store} {k : ClaimKey} {q : Place} {n : Node}
    (hq : s.repo.livePlace? k = some q) (hn : s.host.disk.node? q = some n) : s.live? k = some n := by
  unfold Store.live?
  rw [hq, Option.bind_some]
  exact hn

namespace FileSystem.Disk

variable {d d' : Disk} {p : Place}

/-- Opening a place to append leaves a file there: the one found, or a new one. -/
theorem node?_openWrite {now i : Nat} (h : d.openWrite p .append now = .ok (i, d')) :
    d'.node? p = some (.file i) := by
  unfold openWrite at h
  cases hl : d.lookup p with
  | error e => simp [hl, bind, Except.bind] at h
  | ok o =>
    obtain ⟨-, ho⟩ := lookup_eq_ok.1 hl
    rw [hl] at h
    rcases o with _ | _ | j
    · -- a new file at a place that held nothing, which is not the root
      simp only [bind, Except.bind, allocate, pure, Except.pure, Except.ok.injEq,
        Prod.mk.injEq] at h
      obtain ⟨rfl, rfl⟩ := h
      have hp : p ≠ [] := by
        rintro rfl
        rw [node?_nil] at ho
        cases ho
      rw [node?_set, if_pos ⟨rfl, hp⟩]
    · simp [bind, Except.bind, throw, throwThe, MonadExceptOf.throw] at h
    · simp only [bind, Except.bind, pure, Except.pure, Except.ok.injEq, Prod.mk.injEq] at h
      obtain ⟨rfl, rfl⟩ := h
      exact ho.symm

end FileSystem.Disk

namespace Host

/-- Opening a stream on a path leaves a file at the path's place. -/
theorem node?_openStream {h h' : Host} {path : String} {n : Nat}
    (ho : h.openStream path = .ok (n, h')) :
    ∃ q j, Disk.placeOf path = .ok q ∧ h'.disk.node? q = some (.file j) := by
  unfold openStream at ho
  cases hp : Disk.placeOf path with
  | error e => simp [hp, bind, Except.bind] at ho
  | ok p =>
    simp only [hp, bind, Except.bind] at ho
    obtain ⟨i, d, hnode, ho⟩ : ∃ i d, d.node? p = some (.file i) ∧
        (pure (h.streams.size,
          { h with
            disk := d
            streams := h.streams.push ⟨path, i, (d.bytes i).size, false⟩ }) :
          IoResult (Nat × Host)) = .ok (n, h') := by
      split at ho
      · rename_i r hw
        exact ⟨r.1, r.2, FileSystem.Disk.node?_openWrite hw, ho⟩
      · split at ho
        · rename_i dir _
          cases hm : h.disk.makeDirsAt dir with
          | error e => simp [hm] at ho
          | ok d0 =>
            cases hw : d0.openWrite p .append h.now with
            | error e => simp [hm, hw] at ho
            | ok r =>
              simp only [hm, hw] at ho
              exact ⟨r.1, r.2, FileSystem.Disk.node?_openWrite hw, ho⟩
        · cases hw : h.disk.openWrite p .append h.now with
          | error e => simp [pure, Except.pure, hw] at ho
          | ok r =>
            simp only [pure, Except.pure, hw] at ho
            exact ⟨r.1, r.2, FileSystem.Disk.node?_openWrite hw, ho⟩
      · simp [throw, throwThe, MonadExceptOf.throw] at ho
    simp only [pure, Except.pure, Except.ok.injEq, Prod.mk.injEq] at ho
    exact ⟨p, i, rfl, ho.2 ▸ hnode⟩

end Host

namespace Action

theorem createIn_registers (box : Container) (index : Nat) (lossTolerant : Bool) (s : Store) :
    ((createIn box index lossTolerant).exec s).2.repo.containers = s.repo.containers ∧
    ∀ e ∈ ((createIn box index lossTolerant).exec s).2.repo.streams, e ∈ s.repo.streams ∨
      e.1 = (box.name, box.sectionName index, formatId s.host.now index) ∧
      ∃ q j, Disk.placeOf (box.claimPath
          ⟨box.name, box.sectionName index, formatId s.host.now index, lossTolerant⟩) = .ok q ∧
        ((createIn box index lossTolerant).exec s).2.host.disk.node? q = some (.file j) := by
  unfold createIn
  simp only [exec_bind, exec_host, exec_tracking]
  split
  · simp only [exec_bind, exec_tracking, exec_throw]
    exact ⟨trivial, fun e he => .inl he⟩
  · next n h ho =>
    simp only [exec_bind, exec_modifyHost, exec_modifyRepo, exec_newClaim, exec_pure]
    refine ⟨trivial, fun e he => ?_⟩
    rcases List.mem_cons.1 he with rfl | he
    · exact .inr ⟨rfl, Host.node?_openStream ho⟩
    · exact .inl (List.mem_filter.1 he).1

theorem exec_create_of_chosen (s : Store) (hdown : s.repo.shutDown = false)
    (hpool : s.repo.pool.items = []) (hids : s.repo.ids.value + 1 < 2 ^ 64) (lossTolerant : Bool)
    {box : Container} {s' : Store}
    (hsel : (selectContainer (s.repo.ids.value + 1)).exec
      { s with repo := { s.repo with ids := ⟨s.repo.ids.value + 1⟩ } } = (.ok (some box), s')) :
    (create lossTolerant).exec s = (createIn box (s.repo.ids.value + 1) lossTolerant).exec s' := by
  rw [exec_create_of_empty s hdown hpool hids, hsel]

theorem exec_create_of_unchosen (s : Store) (hdown : s.repo.shutDown = false)
    (hpool : s.repo.pool.items = []) (hids : s.repo.ids.value + 1 < 2 ^ 64) (lossTolerant : Bool)
    {o : Except StoreError (Option Container)} {s' : Store}
    (hsel : (selectContainer (s.repo.ids.value + 1)).exec
      { s with repo := { s.repo with ids := ⟨s.repo.ids.value + 1⟩ } } = (o, s'))
    (ho : ∀ box, o ≠ .ok (some box)) : ((create lossTolerant).exec s).2 = s' := by
  rw [exec_create_of_empty s hdown hpool hids, hsel]
  rcases o with _ | (_ | box)
  · rfl
  · rfl
  · exact absurd rfl (ho box)

theorem createIn_live {box : Container} (index : Nat) (lossTolerant : Bool) {s : Store} {p : Place}
    (hc : s.repo.container? box.name = some box) (hp : place? box.root = some p) :
    ∀ e ∈ ((createIn box index lossTolerant).exec s).2.repo.streams, e ∈ s.repo.streams ∨
      ∃ j, ((createIn box index lossTolerant).exec s).2.live? e.1 = some (.file j) := by
  obtain ⟨hcont, hnew⟩ := createIn_registers box index lossTolerant s
  intro e he
  rcases hnew e he with he | ⟨hk, q, j, hq, hj⟩
  · exact .inl he
  · have hplain : Resource.Plain
        ⟨box.name, box.sectionName index, formatId s.host.now index, lossTolerant⟩ :=
      ⟨Path.plain_toString _, Path.plain_formatId _ _⟩
    rw [placeOf_of_place? (Container.claimPath_place hp hplain)] at hq
    have hlive : ((createIn box index lossTolerant).exec s).2.repo.livePlace? e.1 = some q := by
      rw [hk, ← Except.ok.inj hq]
      refine Repo.livePlace?_eq_some.2 ⟨box, p, ?_, hp, rfl⟩
      rw [Repo.container?, hcont]
      exact hc
    exact .inr ⟨j, Store.live?_of_livePlace? hlive hj⟩

end Action

namespace Store

theorem live_of_keepsLive {s s' : Store} (h : s.KeepsLive s') {k : ClaimKey}
    (hk : ∃ j, s.live? k = some (.file j)) : ∃ j, s'.live? k = some (.file j) :=
  hk.imp fun j => h k j

theorem live_or_idle {s s' : Store} (h : s.Frees s') {k : ClaimKey}
    (hk : ∃ j, s.live? k = some (.file j)) : (∃ j, s'.live? k = some (.file j)) ∨ s'.Idle k := by
  obtain ⟨j, hj⟩ := hk
  by_cases hkept : s'.live? k = some (.file j)
  · exact .inl ⟨j, hkept⟩
  · exact .inr (h k j hj hkept)

end Store

/-! ## Steps that number nothing register nothing -/

namespace Inv

variable {W : World}

theorem streams_of_opensNone {α : Type} {a : Action α} (ha : a.OpensNone)
    {o : Except StoreError α} {s : Store} (h : a.exec W.store = (o, s)) :
    ∀ e ∈ s.repo.streams, e ∈ W.store.repo.streams := fun e he => by
  have := ha W.store e
  rw [h] at this
  exact this he

/-- A step that numbers no new resource claim registers no stream. -/
theorem streams_step (hI : Inv W) (st : Step) (hn : st.numbers = false) :
    ∀ e ∈ (W.step st).store.repo.streams, e ∈ W.store.repo.streams := by
  have hsnd : ∀ {α : Type} {a : Action α}, a.OpensNone →
      ∀ e ∈ (a.exec W.store).2.repo.streams, e ∈ W.store.repo.streams :=
    fun ha e he => ha W.store e he
  cases st with
  | write k =>
    simp only [World.step]
    split
    · split <;> next h => exact streams_of_opensNone (Action.opensNone_write _) h
    · exact fun _ => id
  | send k bytes =>
    simp only [World.step]
    split
    · split <;> next h => exact streams_of_opensNone (Action.opensNone_writeWith _ _) h
    · exact fun _ => id
  | flush k =>
    simp only [World.step]
    split <;> exact fun _ => id
  | close k =>
    simp only [World.step]
    split
    · exact hsnd (Action.opensNone_endWriter _ _)
    · exact fun _ => id
  | abort k =>
    simp only [World.step]
    split
    · exact hsnd (Action.opensNone_endWriter _ _)
    · exact fun _ => id
  | importBytes k bytes =>
    simp only [World.step]
    split
    · exact hsnd (Action.opensNone_importBytes _ _)
    · exact fun _ => id
  | importPath k source =>
    simp only [World.step]
    split
    · exact hsnd (Action.opensNone_importPath _ _)
    · exact fun _ => id
  | increment r => exact hsnd (Action.opensNone_tracking _)
  | decrement r => exact hsnd (Action.opensNone_tracking _)
  | remove r => exact hsnd (Action.opensNone_removeResource r)
  | archive r => exact hsnd (Action.opensNone_archive r)
  | destroy => exact hsnd Action.opensNone_runDestruction
  | cleanup => exact hsnd Action.opensNone_cleanup
  | expire name => exact hsnd (Action.opensNone_expireNow name)
  | wait ms =>
    simp only [World.step, World.after]
    rw [Action.exec_pass_of_idle _ _ hI.running.2]
    exact fun _ => id
  | create | clone => cases hn

/-- A create registers, besides the streams there were, at most its new resource claim, whose
live place then holds a file. -/
theorem create_registers (hI : Inv W) (hids : W.store.repo.ids.value + 1 < 2 ^ 64)
    (lossTolerant : Bool) :
    ∀ e ∈ ((Action.create lossTolerant).exec W.store).2.repo.streams, e ∈ W.store.repo.streams ∨
      ∃ j, ((Action.create lossTolerant).exec W.store).2.live? e.1 = some (.file j) := by
  cases hpool : W.store.repo.pool.items with
  | cons e rest =>
    rw [Action.exec_create_of_pooled hI hpool]
    exact fun e he => .inl he
  | nil =>
    have hI1 := hI.number (Nat.le_succ W.store.repo.ids.value)
    obtain ⟨hreg, hmem⟩ := Action.selectContainer_regated (W.store.repo.ids.value + 1)
      { W.store with repo := { W.store.repo with ids := ⟨W.store.repo.ids.value + 1⟩ } }
      hI.layout.names
    have hst : ((Action.selectContainer (W.store.repo.ids.value + 1)).exec { W.store with
        repo := { W.store.repo with ids := ⟨W.store.repo.ids.value + 1⟩ } }).2.repo.streams =
        W.store.repo.streams := by
      obtain ⟨-, g, hg⟩ := hreg
      rw [hg]
    rcases hsel : (Action.selectContainer (W.store.repo.ids.value + 1)).exec { W.store with
        repo := { W.store.repo with ids := ⟨W.store.repo.ids.value + 1⟩ } } with ⟨o, s2⟩
    rw [hsel] at hreg hmem hst
    by_cases ho : ∃ box, o = .ok (some box)
    · obtain ⟨box, rfl⟩ := ho
      have hbox : box ∈ s2.repo.containers := hmem box rfl
      have hI2 : Inv { W with store := s2 } := hI1.regate hreg
      obtain ⟨p, hp⟩ := Option.isSome_iff_exists.1 (hI2.layout.rooted box hbox)
      have hc : s2.repo.container? box.name = some box := hI2.layout.find?_name hbox
      rw [Action.exec_create_of_chosen W.store hI.running.1 hpool hids lossTolerant hsel]
      exact fun e he => (Action.createIn_live _ lossTolerant hc hp e he).imp_left (hst ▸ ·)
    · rw [Action.exec_create_of_unchosen W.store hI.running.1 hpool hids lossTolerant hsel
        fun box h => ho ⟨box, h⟩]
      exact fun e he => .inl (hst ▸ he)

/-- A clone registers, besides the streams there were, at most the new claim's resource claim,
whose live file stays unless the rollback of a failed copy left that claim idle. -/
theorem clone_registers (hI : Inv W) (hids : W.store.repo.ids.value + 1 < 2 ^ 64)
    (original : ClaimRef) (lossTolerant : Bool) :
    ∀ e ∈ ((Action.clone original lossTolerant).exec W.store).2.repo.streams,
      e ∈ W.store.repo.streams ∨
      (∃ j, ((Action.clone original lossTolerant).exec W.store).2.live? e.1 = some (.file j)) ∨
      ((Action.clone original lossTolerant).exec W.store).2.Idle e.1 := by
  have hcreate := hI.create_registers hids lossTolerant
  unfold Action.clone
  rw [Action.exec_bind]
  rcases hcr : (Action.create lossTolerant).exec W.store with ⟨_ | (copy | _), s1⟩ <;>
    rw [hcr] at hcreate <;> dsimp only at hcreate ⊢
  · exact fun e he => (hcreate e he).imp_right .inl
  · obtain ⟨hplain, hcopy⟩ := hI.clone_copy hids hcr original
    simp only [Action.exec_bind, Action.exec_attempt]
    have h2 := Action.retains_copyClaim original copy s1
    have hop2 := Action.opensNone_copyClaim original copy s1
    rcases hcp : (Action.copyClaim original copy).exec s1 with ⟨_ | u, s2⟩ <;>
      rw [hcp] at hcopy h2 hop2 <;> dsimp only at hcopy h2 hop2 ⊢
    · -- the rollback runs on a store of a world that satisfies the invariant
      obtain ⟨x, -, hI2, hres⟩ := hcopy.resolve_left (by simp)
      have h3 := Action.spares_rollback hplain hI2 (hres.resolve_left nofun)
      have hop3 := Action.opensNone_rollback copy s2
      rw [Action.exec_bind]
      rcases hrb : (Action.rollback copy).exec s2 with ⟨_ | _, s3⟩ <;> rw [hrb] at h3 hop3 <;>
        exact fun e he => (hcreate e (hop2 e (hop3 e he))).imp_right
          (Store.live_or_idle (h2.keepsLive.then_frees h3.frees))
    · cases u <;> exact fun e he => (hcreate e (hop2 e he)).imp_right
        fun h => .inl (Store.live_of_keepsLive h2.keepsLive h)
  · exact fun e he => (hcreate e he).imp_right .inl

theorem step_registers (hI : Inv W) (st : Step)
    (hids : st.numbers → W.store.repo.ids.value + 1 < 2 ^ 64) :
    ∀ e ∈ (W.step st).store.repo.streams, e ∈ W.store.repo.streams ∨
      (∃ j, (W.step st).store.live? e.1 = some (.file j)) ∨ (W.step st).store.Idle e.1 := by
  cases hn : st.numbers
  · exact fun e he => .inl (hI.streams_step st hn e he)
  cases st with
  | create lossTolerant =>
    have h := hI.create_registers (hids rfl) lossTolerant
    simp only [World.step]
    split <;> next hx => rw [hx] at h; exact fun e he => (h e he).imp_right .inl
  | clone original lossTolerant =>
    have h := hI.clone_registers (hids rfl) original lossTolerant
    simp only [World.step]
    split
    -- a clone that never returns leaves the caller where it was
    · exact fun e he => .inl he
    · next hx => rw [hx] at h; exact h
  | _ => cases hn

end Inv

/-- Every resource claim with a stream has a file at its live place. -/
def Store.LiveStreams (s : Store) : Prop :=
  ∀ k n, (k, n) ∈ s.repo.streams → ∃ j, s.live? k = some (.file j)

theorem Inv.liveStreams_step {W : World} (hI : Inv W) (hL : W.store.LiveStreams) (st : Step)
    (hplain : st.PlainClaims) (hids : st.numbers → W.store.repo.ids.value + 1 < 2 ^ 64) :
    (W.step st).store.LiveStreams := by
  have hI' := hI.step st hplain hids
  intro k n hkn
  -- a resource claim with a stream is writable, so not frozen, so not idle
  have hbusy : ¬ (W.step st).store.Idle k := fun ⟨_, hfrozen⟩ => by
    have hw := hI'.writable k
    rw [(Repo.registered_iff _ _).2 ⟨n, hkn⟩, hfrozen] at hw
    cases hw
  rcases hI.step_registers st hids (k, n) hkn with hold | hnew | hidle
  · obtain ⟨j, hj⟩ := hL k n hold
    refine ⟨j, ?_⟩
    by_contra hgone
    exact hbusy (hI.step_frees st hplain hids k j hj hgone)
  · exact hnew
  · exact absurd hidle hbusy

theorem World.launch_files {s : Config.Resolved} {cap : Nat} {probe : Probe} {d : FileSystem.Disk}
    {now : Nat} {W : World} (hW : World.launch s cap probe d now = some W) : W.files = [] := by
  unfold World.launch at hW
  split at hW
  · cases hW
    rfl
  · cases hW

theorem Reachable.liveStreams {W : World} (hW : Reachable W) : W.store.LiveStreams := by
  induction hW with
  | opened _ _ _ hW =>
    intro k n hkn
    obtain ⟨-, i, hi, -⟩ := (Reachable.opened ‹_› ‹_› ‹_› hW).inv.stream_file k n hkn
    rw [World.launch_files hW] at hi
    cases hi
  | step st hW hplain hids ih => exact hW.inv.liveStreams_step ih st hplain hids

theorem Reachable.live_of_stream {W : World} (hW : Reachable W) {k : ClaimKey} {n : Nat}
    (hkn : (k, n) ∈ W.store.repo.streams) :
    W.store.live? k = some (.file (W.store.host.stream n).inode) := by
  have hI := hW.inv
  obtain ⟨j, hj⟩ := hW.liveStreams k n hkn
  obtain ⟨-, i, hi, hin, -⟩ := hI.stream_file k n hkn
  obtain ⟨q, hq, hnode⟩ := Option.bind_eq_some_iff.1 hj
  obtain ⟨c, p, hc, hp, rfl⟩ := Repo.livePlace?_eq_some.1 hq
  obtain ⟨hcm, hname⟩ := Repo.mem_of_container? hc
  rcases (hI.placed k i hi c hcm hname p hp).1 with hnone | hfile
  · rw [hnone] at hnode
    cases hnode
  · rw [hin, hj, ← hnode, hfile]

end ClaimStore
