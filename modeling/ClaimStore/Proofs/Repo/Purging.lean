import ClaimStore.Proofs.Disk.Clearing
import ClaimStore.Proofs.Repo.Reordering
/-!
# Purging a repository

A purge closes every stream the repository has open and forgets its pool, empties every
container (its bins, its archive queue and its archived-file count) together with its root
directory, makes each root's section directories again and forgets every claim the tracker
holds.

`Store.Purged s s'` says what a purge of `s` leaves: the repository purged (`Repo.purged`), the
streams it had open closed, and each root holding exactly its empty sections while every other
place holds what it held (`Disk.Reset`). On a store whose containers lie apart on a sound disk
(`Store.Purgeable`), a purge that ends well leaves exactly that (`purged_of_ok`), and on such a
store keyed below its roots, as a purged store is, a purge always ends well (`exec_purge`).
Since a purged store is purgeable again and resets to the same tree, a second purge changes
nothing but the order in which the disk lists its entries (`Store.Purged.again`).

A purged world, with nothing handed out, satisfies the invariant of reachable worlds
(`Inv.purged`); so `create` hands out claims again and each claim reads back what was written
through it, whatever the caller does after the purge.

Main statement: `purge_resets_and_is_idempotent`.
-/

set_option autoImplicit false

namespace ClaimStore

open ClaimStore.Claim ClaimStore.FileSystem ClaimStore.FileSystem.Disk ClaimStore.Path

/-! ## Loops that end well -/

/-- A loop that ends well ran every pass to its end, each going on: if each pass that ends well
keeps `P` of the items passed so far, the value carried and the store, the loop's end has it. -/
theorem Action.of_exec_forIn_ok {γ β : Type} {f : γ → β → Action (ForInStep β)} (l : List γ)
    (P : List γ → β → Store → Prop)
    (hpass : ∀ pre x post, l = pre ++ x :: post → ∀ b s o s', P pre b s →
      (f x b).exec s = (.ok o, s') → ∃ b', o = .yield b' ∧ P (pre ++ [x]) b' s')
    {b b' : β} {s s' : Store} (h0 : P [] b s) (h : (forIn l b f).exec s = (.ok b', s')) :
    P l b' s' := by
  -- the loop over what is left after the items `pre` passed
  suffices H : ∀ post pre, l = pre ++ post → ∀ b s, P pre b s →
      (forIn post b f).exec s = (.ok b', s') → P l b' s' from H l [] rfl b s h0 h
  intro post
  induction post with
  | nil =>
    intro pre hl b s hP h
    obtain ⟨rfl, rfl⟩ : b = b' ∧ s = s' := by simpa using h
    rwa [hl, List.append_nil]
  | cons x post ih =>
    intro pre hl b s hP h
    rw [List.forIn_cons, Action.exec_bind] at h
    rcases hx : (f x b).exec s with ⟨_ | o, s1⟩
    · rw [hx] at h
      cases h
    · obtain ⟨b1, rfl, hP1⟩ := hpass pre x post hl b s o s1 hP hx
      rw [hx] at h
      exact ih (pre ++ [x]) (by rw [hl, List.append_assoc, List.singleton_append]) b1 s1 hP1 h

theorem Action.exec_forIn_ok_of_passes {γ β : Type} {f : γ → β → Action (ForInStep β)}
    (l : List γ) (P : List γ → β → Store → Prop)
    (hpass : ∀ pre x post, l = pre ++ x :: post → ∀ b s, P pre b s →
      ∃ o s', (f x b).exec s = (.ok o, s') ∧ ∃ b', o = .yield b' ∧ P (pre ++ [x]) b' s')
    {b : β} {s : Store} (h0 : P [] b s) :
    ∃ b' s', (forIn l b f).exec s = (.ok b', s') ∧ P l b' s' := by
  rw [← bind_pure (forIn l b f)]
  exact Action.exec_forIn_of_passes l P hpass h0 fun b s hP => ⟨b, s, rfl, hP⟩

theorem Action.exec_forIn_ne_error {γ β : Type} {f : γ → β → Action (ForInStep β)} (l : List γ)
    (P : List γ → β → Store → Prop)
    (hpass : ∀ pre x post, l = pre ++ x :: post → ∀ b s, P pre b s →
      ∃ o s', (f x b).exec s = (.ok o, s') ∧ ∃ b', o = .yield b' ∧ P (pre ++ [x]) b' s')
    {b : β} {s : Store} (h0 : P [] b s) (e : StoreError) (s' : Store) :
    (forIn l b f).exec s ≠ (.error e, s') := by
  obtain ⟨b', s'', hok, -⟩ := Action.exec_forIn_ok_of_passes l P hpass h0
  rw [hok]
  simp

/-! ## What a purge leaves -/

/-- The store with another disk. -/
def Store.withDisk (s : Store) (d : Disk) : Store := { s with host := { s.host with disk := d } }

@[simp] theorem Store.disk_withDisk (s : Store) (d : Disk) : (s.withDisk d).host.disk = d := rfl

@[simp] theorem Store.repo_withDisk (s : Store) (d : Disk) : (s.withDisk d).repo = s.repo := rfl

@[simp] theorem Store.withDisk_withDisk (s : Store) (d d' : Disk) :
    (s.withDisk d).withDisk d' = s.withDisk d' := rfl

/-- The repository as a purge leaves it: no streams, an empty pool, every container emptied and
a tracker with no records and nothing queued. -/
def Repo.purged (r : Repo) : Repo :=
  { r with streams := [], pool := r.pool.clear, containers := r.containers.map Container.emptied,
           tracker := r.tracker.purge }

/-- Closes the streams of a table of streams. -/
def Host.closeAll (h : Host) (streams : List (ClaimKey × Nat)) : Host :=
  streams.foldl (fun h e => h.close e.2) h

/-- The containers' root directories, the root of `c` with `k c` sections. -/
def Container.dirsWith (cs : List Container) (k : Container → Nat) : List (Place × Nat) :=
  cs.filterMap fun c => (place? c.root).map (·, k c)

/-- Each container's root directory, with its number of sections. -/
def Container.rootDirs (cs : List Container) : List (Place × Nat) := Container.dirsWith cs (·.sections)

theorem Container.mem_dirsWith {cs : List Container} {k : Container → Nat} {e : Place × Nat} :
    e ∈ Container.dirsWith cs k ↔ ∃ c ∈ cs, place? c.root = some e.1 ∧ k c = e.2 := by
  simp only [dirsWith, List.mem_filterMap, Option.map_eq_some_iff]
  constructor
  · rintro ⟨c, hc, p, hp, rfl⟩
    exact ⟨c, hc, hp, rfl⟩
  · rintro ⟨c, hc, hp, hn⟩
    exact ⟨c, hc, e.1, hp, by rw [hn]⟩

/-- What a purge of `s` leaves: the repository purged, the streams it had open closed, each root
holding exactly its empty section directories and every other place what it held. -/
structure Store.Purged (s s' : Store) : Prop where
  repo : s'.repo = s.repo.purged
  host : s'.host = { s.host.closeAll s.repo.streams with disk := s'.host.disk }
  disk : Disk.Reset (Container.rootDirs s.repo.containers) s.host.disk s'.host.disk

/-- What a purge asks of a store: containers with distinct names at roots neither equal nor
nested, on a sound disk where every root is a directory. -/
structure Store.Purgeable (s : Store) : Prop where
  layout : Layout s.repo.containers
  sound : s.host.disk.Sound
  roots : ∀ c ∈ s.repo.containers, ∀ p, place? c.root = some p → s.host.disk.node? p = some .dir

/-! ## Closing the streams -/

/-- The store once its streams are closed and its pool forgotten. -/
def Store.streamsClosed (s : Store) : Store :=
  { repo := { s.repo with streams := [], pool := s.repo.pool.clear }
    host := s.host.closeAll s.repo.streams }

namespace Host

@[simp] theorem disk_closeAll (h : Host) (l : List (ClaimKey × Nat)) : (h.closeAll l).disk = h.disk := by
  induction l generalizing h with
  | nil => rfl
  | cons e l ih => exact ih (h.close e.2)

@[simp] theorem closeAll_nil (h : Host) : h.closeAll [] = h := rfl

theorem closed_closeAll_of_closed (h : Host) (l : List (ClaimKey × Nat)) {n : Nat}
    (hn : (h.stream n).closed = true) : ((h.closeAll l).stream n).closed = true := by
  induction l generalizing h with
  | nil => exact hn
  | cons e l ih =>
    refine ih (h.close e.2) ?_
    rw [stream_close]
    split <;> simp [hn]

theorem closed_closeAll (h : Host) {l : List (ClaimKey × Nat)} {k : ClaimKey} {n : Nat}
    (hn : (k, n) ∈ l) : ((h.closeAll l).stream n).closed = true := by
  induction l generalizing h with
  | nil => cases hn
  | cons e l ih =>
    rcases List.mem_cons.1 hn with rfl | hn
    · exact closed_closeAll_of_closed _ l (by simp [stream_close])
    · exact ih (h.close e.2) hn

end Host

namespace Action

theorem exec_closeAllStreams (s : Store) : closeAllStreams.exec s = (.ok (), s.streamsClosed) := rfl

theorem exec_writeWith_of_closed {s : Store} {w : Writer} (hw : w.finished = false)
    (hn : (s.host.stream w.stream).closed = true) (bytes : ByteArray) :
    (writeWith w bytes).exec s = (.ok (.error .streamClosed, { w with failed := true }), s) := by
  simp [exec_writeWith, Writer.write, hw, Host.writeAll, hn, throw, throwThe, MonadExceptOf.throw]

end Action

/-! ## The repository and its containers -/

namespace Container

@[simp] theorem name_emptied (c : Container) : c.emptied.name = c.name := rfl

@[simp] theorem root_emptied (c : Container) : c.emptied.root = c.root := rfl

@[simp] theorem sections_emptied (c : Container) : c.emptied.sections = c.sections := rfl

theorem emptied_emptied (c : Container) : c.emptied.emptied = c.emptied := rfl

theorem emptied_cleared (c : Container) : c.emptied.gate.archived = 0 ∧ c.emptied.oldest = 0 ∧
    c.emptied.reclaimable.items = [] ∧ c.emptied.archived.items = [] :=
  ⟨rfl, rfl, rfl, rfl⟩

end Container

theorem Repo.purged_purged (r : Repo) : r.purged.purged = r.purged := by
  simp [Repo.purged, List.map_map, Function.comp_def, Container.emptied_emptied, Tracker.purge,
    Fifo.clear]

/-- The containers when those named in `done` are emptied. -/
def Container.emptiedAmong (cs : List Container) (done : List String) : List Container :=
  cs.map fun c => if c.name ∈ done then c.emptied else c

theorem Layout.of_map {cs : List Container} (hL : Layout cs) (f : Container → Container)
    (hf : ∀ c, (f c).name = c.name ∧ (f c).root = c.root ∧ (f c).sections = c.sections) :
    Layout (cs.map f) where
  names := by simpa [List.map_map, Function.comp_def, hf] using hL.names
  rooted c hc := by
    obtain ⟨b, hb, rfl⟩ := List.mem_map.1 hc
    rw [(hf b).2.1]
    exact hL.rooted b hb
  sections c hc := by
    obtain ⟨b, hb, rfl⟩ := List.mem_map.1 hc
    rw [(hf b).2.2]
    exact hL.sections b hb
  apart c hc c' hc' hne p p' hp hp' := by
    obtain ⟨b, hb, rfl⟩ := List.mem_map.1 hc
    obtain ⟨b', hb', rfl⟩ := List.mem_map.1 hc'
    rw [(hf b).1, (hf b').1] at hne
    rw [(hf b).2.1] at hp
    rw [(hf b').2.1] at hp'
    exact hL.apart b hb b' hb' hne p p' hp hp'

theorem Layout.emptiedAmong {cs : List Container} (hL : Layout cs) (done : List String) :
    Layout (Container.emptiedAmong cs done) :=
  hL.of_map _ fun c => by by_cases h : c.name ∈ done <;> simp [h]

theorem Repo.setContainer_emptiedAmong {r : Repo} {cs : List Container} (hL : Layout cs)
    {done : List String} {c : Container} (hc : c ∈ cs) (hr : r.containers = Container.emptiedAmong cs done)
    (hnew : c.name ∉ done) :
    r.container? c.name = some c ∧
      (r.setContainer c.emptied).containers = Container.emptiedAmong cs (done ++ [c.name]) := by
  have hmem : c ∈ r.containers := by
    rw [hr]
    exact List.mem_map.2 ⟨c, hc, by simp [hnew]⟩
  refine ⟨(hr ▸ hL.emptiedAmong done).find?_name hmem, ?_⟩
  simp only [Repo.setContainer, hr, Container.emptiedAmong, List.map_map]
  refine List.map_congr_left fun c' hc' => ?_
  by_cases hn : c'.name = c.name
  · obtain rfl := List.inj_on_of_nodup_map hL.names hc' hc hn
    simp [hnew]
  · have hmid : (if c'.name ∈ done then c'.emptied else c').name = c'.name := by split <;> rfl
    have hdone : c'.name ∈ done ++ [c.name] ↔ c'.name ∈ done := by simp [hn]
    simp only [Function.comp, hmid, Container.name_emptied, beq_iff_eq, hn, if_false, hdone]

/-! ## Emptying a directory -/

namespace FileSystem.Disk

theorem removeEntry_eq_drop {d d' : Disk} {q : Place} {n : Node}
    (h : (match n with
      | .dir => d.removeTree q
      | .file _ => d.removeFile q) = .ok d') : d' = d.drop q := by
  cases n with
  | dir => exact removeTree_eq_drop h
  | file i => exact removeFile_eq_drop h

end FileSystem.Disk

namespace Action

variable {s s' : Store} {root : String} {p : Place}

/-- Emptying a directory that ended well dropped each entry the directory listed. -/
theorem exec_clearDirectory_of_ok (hp : place? root = some p) (hs : s.host.disk.Sound)
    (hdir : s.host.disk.node? p = some .dir) (h : (clearDirectory root).exec s = (.ok (), s')) :
    s' = s.withDisk (s.host.disk.dropEntries p ((s.host.disk.children p).map Prod.fst)) := by
  unfold clearDirectory at h
  simp only [exec_bind, exec_host, placeOf_of_place? hp, exec_pure, readDir_of_dir hs hdir] at h
  split at h
  · next u t hloop =>
    cases h
    refine Action.of_exec_forIn_ok _
      (fun pre _ t => t = s.withDisk (s.host.disk.dropEntries p (pre.map Prod.fst))) ?_ rfl hloop
    rintro pre ⟨name, n⟩ post - b t o t' rfl hx
    simp only [exec_bind, exec_host, Store.withDisk] at hx
    split at hx
    · next d' hrm =>
      simp only [exec_bind, exec_modifyHost, exec_pure, Prod.mk.injEq, Except.ok.injEq] at hx
      obtain ⟨rfl, rfl⟩ := hx
      rw [removeEntry_eq_drop hrm, List.map_append, List.map_singleton, dropEntries_concat]
      exact ⟨(), rfl, rfl⟩
    · simp at hx
  · cases h

/-- Emptying a directory of a disk keyed below it ends well: each entry it lists is where the
listing says, so each removal finds it. -/
theorem exec_clearDirectory (hp : place? root = some p) (hs : s.host.disk.Sound)
    (hdir : s.host.disk.node? p = some .dir) (hk : s.host.disk.KeyedBelow p) :
    (clearDirectory root).exec s =
      (.ok (), s.withDisk (s.host.disk.dropEntries p ((s.host.disk.children p).map Prod.fst))) := by
  rcases h : (clearDirectory root).exec s with ⟨_ | u, t⟩
  · exfalso
    unfold clearDirectory at h
    simp only [exec_bind, exec_host, placeOf_of_place? hp, exec_pure, readDir_of_dir hs hdir] at h
    split at h
    · cases h
    · next e t' hloop =>
      refine Action.exec_forIn_ne_error _
        (fun pre _ t => t = s.withDisk (s.host.disk.dropEntries p (pre.map Prod.fst))) ?_ rfl e t'
        hloop
      rintro pre ⟨name, n⟩ post hl b t rfl
      -- the entry is listed once, so the entries dropped before it leave it in place
      have hmem : (name, n) ∈ s.host.disk.children p := by
        rw [hl]
        exact List.mem_append_right _ List.mem_cons_self
      have hname : name ∉ pre.map Prod.fst := by
        have hnd := hk.children_names
        rw [hl, List.map_append, List.map_cons, List.nodup_append] at hnd
        exact fun hy => hnd.2.2 _ hy _ List.mem_cons_self rfl
      have hnode : (s.host.disk.dropEntries p (pre.map Prod.fst)).node? (p ++ [name]) = some n := by
        rw [node?_dropEntries, if_neg, hk.node?_of_children hmem]
        rintro ⟨y, hy, hpre⟩
        have hyn : [y] = [name] := List.append_cancel_left (hpre.eq_of_length (by simp))
        exact hname (List.singleton_inj.1 hyn ▸ hy)
      have hs' := hs.dropEntries p (pre.map Prod.fst)
      refine ⟨.yield (), s.withDisk ((s.host.disk.dropEntries p (pre.map Prod.fst)).drop
        (p ++ [name])), ?_, (), rfl, ?_⟩
      · cases n with
        | dir => simp [exec_bind, exec_map, Store.withDisk, removeTree_of_dir hs' hnode]
        | file i => simp [exec_bind, exec_map, Store.withDisk, removeFile_of_file hs' hnode]
      · rw [List.map_append, List.map_singleton, dropEntries_concat]
  · rw [exec_clearDirectory_of_ok hp hs hdir h]

end Action

/-! ## The first pass: emptying the containers -/

theorem Container.emptiedAmong_nil (cs : List Container) : Container.emptiedAmong cs [] = cs := by
  simp [Container.emptiedAmong]

theorem Container.emptiedAmong_names (cs : List Container) :
    Container.emptiedAmong cs (cs.map (·.name)) = cs.map Container.emptied :=
  List.map_congr_left fun _ hc => if_pos (List.mem_map_of_mem hc)

theorem Container.mem_dirsWith_split {cs : List Container} (hn : (cs.map (·.name)).Nodup)
    {c : Container} (hc : c ∈ cs) {p : Place} (hp : place? c.root = some p)
    {k m : Container → Nat} (hk : ∀ c' ∈ cs, c'.name ≠ c.name → k c' = m c') (e : Place × Nat) :
    e ∈ Container.dirsWith cs k ↔
      e ∈ (p, k c) :: Container.dirsWith (cs.filter (·.name ≠ c.name)) m := by
  obtain ⟨q, n⟩ := e
  simp only [List.mem_cons, Prod.mk.injEq, Container.mem_dirsWith, List.mem_filter,
    decide_eq_true_eq]
  constructor
  · rintro ⟨c', hc', hq, rfl⟩
    by_cases hne : c'.name = c.name
    · obtain rfl := List.inj_on_of_nodup_map hn hc' hc hne
      exact .inl ⟨Option.some_inj.1 (hq.symm.trans hp), rfl⟩
    · exact .inr ⟨c', ⟨hc', hne⟩, hq, (hk c' hc' hne).symm⟩
  · rintro (⟨rfl, rfl⟩ | ⟨c', ⟨hc', hne⟩, hq, rfl⟩)
    · exact ⟨c, hc, hp, rfl⟩
    · exact ⟨c', hc', hq, hk c' hc' hne⟩

theorem Layout.apart_dirsWith {cs l : List Container} (hL : Layout cs) {c : Container}
    (hc : c ∈ cs) {p : Place} (hp : place? c.root = some p)
    (hl : ∀ c' ∈ l, c' ∈ cs ∧ c'.name ≠ c.name) (k : Container → Nat) :
    ∀ e ∈ Container.dirsWith l k, ¬ e.1 <+: p ∧ ¬ p <+: e.1 := by
  intro e he
  obtain ⟨c', hc', hq, -⟩ := Container.mem_dirsWith.1 he
  obtain ⟨hcs, hne⟩ := hl c' hc'
  exact ⟨hL.apart c' hcs c hc hne _ _ hq hp, hL.apart c hc c' hcs (Ne.symm hne) _ _ hp hq⟩

/-- Where the first pass of a purge of `s` stands once it emptied the containers named `done`:
those containers emptied together with their roots, and all else as it was. -/
structure Store.EmptiedAmong (s : Store) (done : List String) (t : Store) : Prop where
  repo : t.repo = { s.repo with containers := Container.emptiedAmong s.repo.containers done }
  host : t.host = { s.host with disk := t.host.disk }
  disk : Reset (Container.dirsWith (s.repo.containers.filter (·.name ∈ done)) fun _ => 0)
    s.host.disk t.host.disk

theorem Layout.next_name {cs : List Container} (hL : Layout cs) {pre post : List String} {x : String}
    (hl : cs.map (·.name) = pre ++ x :: post) :
    ∃ c ∈ cs, c.name = x ∧ x ∉ pre ∧ ∃ p, place? c.root = some p := by
  obtain ⟨c, hc, rfl⟩ := List.mem_map.1 (hl ▸ List.mem_append_right pre List.mem_cons_self)
  have hnd := hL.names
  rw [hl, List.nodup_append] at hnd
  obtain ⟨p, hp⟩ := Option.isSome_iff_exists.1 (hL.rooted c hc)
  exact ⟨c, hc, rfl, fun h => hnd.2.2 _ h _ List.mem_cons_self rfl, p, hp⟩

theorem Store.Purgeable.apart_done {s : Store} (hP : s.Purgeable) {done : List String} {c : Container}
    (hc : c ∈ s.repo.containers) (hnew : c.name ∉ done) {p : Place} (hp : place? c.root = some p) :
    ∀ e ∈ Container.dirsWith (s.repo.containers.filter (·.name ∈ done)) (fun _ => 0),
      ¬ e.1 <+: p ∧ ¬ p <+: e.1 :=
  hP.layout.apart_dirsWith hc hp (fun c' hc' => by
    obtain ⟨hcs, hin⟩ := List.mem_filter.1 hc'
    exact ⟨hcs, fun h => hnew (h ▸ of_decide_eq_true hin)⟩) fun _ => 0

namespace Store.EmptiedAmong

variable {s t : Store} {done : List String} {c : Container} {p : Place}

theorem root_dir (hP : s.Purgeable) (ht : s.EmptiedAmong done t) (hc : c ∈ s.repo.containers)
    (hnew : c.name ∉ done) (hp : place? c.root = some p) : t.host.disk.node? p = some .dir := by
  rw [ht.disk.node?_of_apart fun e he => .inl (hP.apart_done hc hnew hp e he).1]
  exact hP.roots c hc p hp

theorem start (hs : s.host.disk.Sound) : s.EmptiedAmong [] s where
  repo := by rw [Container.emptiedAmong_nil]
  host := rfl
  disk := by simpa [Container.dirsWith] using Reset.refl hs

/-- Emptying the next container and its root keeps the pass on course. -/
theorem next (hP : s.Purgeable) (ht : s.EmptiedAmong done t) (hc : c ∈ s.repo.containers)
    (hnew : c.name ∉ done) (hp : place? c.root = some p) :
    s.EmptiedAmong (done ++ [c.name]) ({ t with repo := t.repo.setContainer c.emptied }.withDisk
      (t.host.disk.dropEntries p ((t.host.disk.children p).map Prod.fst))) where
  repo := by
    rw [← (Repo.setContainer_emptiedAmong (r := t.repo) hP.layout hc (by rw [ht.repo]) hnew).2, ht.repo]
    rfl
  host := by
    simp only [Store.withDisk]
    rw [ht.host]
  disk := by
    refine (ht.disk.empty fun e he => (hP.apart_done hc hnew hp e he).2).congr fun e => ?_
    have hc' : c ∈ s.repo.containers.filter (·.name ∈ done ++ [c.name]) := by simp [hc]
    have hnd : ((s.repo.containers.filter (·.name ∈ done ++ [c.name])).map (·.name)).Nodup :=
      hP.layout.names.sublist (List.filter_sublist.map _)
    have hrest : (s.repo.containers.filter (·.name ∈ done ++ [c.name])).filter (·.name ≠ c.name) =
        s.repo.containers.filter (·.name ∈ done) := by
      rw [List.filter_filter]
      refine List.filter_congr fun c' _ => ?_
      by_cases h : c'.name = c.name
      · simp [h, hnew]
      · simp [h]
    rw [Container.mem_dirsWith_split hnd hc' hp (m := fun _ => 0) (fun _ _ _ => rfl), hrest]

theorem all (ht : s.EmptiedAmong (s.repo.containers.map (·.name)) t) :
    t = { s with repo := { s.repo with containers := s.repo.containers.map Container.emptied } }.withDisk
        t.host.disk ∧
      Reset (Container.dirsWith s.repo.containers fun _ => 0) s.host.disk t.host.disk := by
  refine ⟨?_, ?_⟩
  · obtain ⟨r, h⟩ := t
    have hr := ht.repo
    have hh := ht.host
    simp only at hr hh
    rw [hr, hh, Container.emptiedAmong_names]
    rfl
  · have h := ht.disk
    rwa [List.filter_eq_self.2 fun c hc => by simpa using List.mem_map_of_mem hc] at h

end Store.EmptiedAmong

namespace Action

variable {s t t' : Store} {done : List String} {c : Container} {p : Place}

theorem exec_emptyContainer_of_ok (hP : s.Purgeable) (ht : s.EmptiedAmong done t)
    (hc : c ∈ s.repo.containers) (hnew : c.name ∉ done) (hp : place? c.root = some p) {u : Unit}
    (h : (emptyContainer c.name).exec t = (.ok u, t')) :
    s.EmptiedAmong (done ++ [c.name]) t' := by
  have hfind := (Repo.setContainer_emptiedAmong (r := t.repo) hP.layout hc (by rw [ht.repo]) hnew).1
  unfold emptyContainer at h
  simp only [exec_bind, exec_container, hfind, setContainer, exec_modifyRepo] at h
  rw [exec_clearDirectory_of_ok (s := { t with repo := t.repo.setContainer c.emptied }) hp
    ht.disk.sound (ht.root_dir hP hc hnew hp :) h]
  exact ht.next hP hc hnew hp

theorem exec_emptyContainer (hP : s.Purgeable) (ht : s.EmptiedAmong done t)
    (hc : c ∈ s.repo.containers) (hnew : c.name ∉ done) (hp : place? c.root = some p)
    (hk : t.host.disk.KeyedBelow p) :
    (emptyContainer c.name).exec t = (.ok (), { t with repo := t.repo.setContainer c.emptied }.withDisk
      (t.host.disk.dropEntries p ((t.host.disk.children p).map Prod.fst))) := by
  have hfind := (Repo.setContainer_emptiedAmong (r := t.repo) hP.layout hc (by rw [ht.repo]) hnew).1
  unfold emptyContainer
  simp only [exec_bind, exec_container, hfind, setContainer, exec_modifyRepo]
  exact exec_clearDirectory (s := { t with repo := t.repo.setContainer c.emptied }) hp
    ht.disk.sound (ht.root_dir hP hc hnew hp :) hk

theorem exec_emptyContainers_of_ok (hP : s.Purgeable) {u : Unit}
    (h : emptyContainers.exec s = (.ok u, t)) :
    t = { s with repo := { s.repo with containers := s.repo.containers.map Container.emptied } }.withDisk
        t.host.disk ∧
      Reset (Container.dirsWith s.repo.containers fun _ => 0) s.host.disk t.host.disk := by
  refine Store.EmptiedAmong.all ?_
  unfold emptyContainers at h
  simp only [bind_pure_unit, exec_bind, exec_repo] at h
  refine Action.of_exec_forIn_ok _ (fun pre _ t => s.EmptiedAmong pre t) ?_ (.start hP.sound) h
  rintro pre x post hl - t o t' ht hx
  obtain ⟨c, hc, rfl, hnew, p, hp⟩ := hP.layout.next_name hl
  simp only [exec_bind] at hx
  rcases he : (emptyContainer c.name).exec t with ⟨_ | u, t1⟩
  · simp [he] at hx
  · simp only [he, exec_pure, Prod.mk.injEq, Except.ok.injEq] at hx
    obtain ⟨rfl, rfl⟩ := hx
    exact ⟨(), rfl, exec_emptyContainer_of_ok hP ht hc hnew hp he⟩

theorem exec_emptyContainers_ne_error (hP : s.Purgeable)
    (hk : ∀ c ∈ s.repo.containers, ∀ p, place? c.root = some p → s.host.disk.KeyedBelow p)
    (e : StoreError) (t : Store) : emptyContainers.exec s ≠ (.error e, t) := by
  unfold emptyContainers
  simp only [bind_pure_unit, exec_bind, exec_repo]
  -- emptying a root keeps the disk keyed below every root
  refine Action.exec_forIn_ne_error _ (fun pre _ t => s.EmptiedAmong pre t ∧
    ∀ c ∈ s.repo.containers, ∀ p, place? c.root = some p → t.host.disk.KeyedBelow p) ?_
    ⟨.start hP.sound, hk⟩ e t
  rintro pre x post hl - t ⟨ht, htk⟩
  obtain ⟨c, hc, rfl, hnew, p, hp⟩ := hP.layout.next_name hl
  refine ⟨.yield (), { t with repo := t.repo.setContainer c.emptied }.withDisk
    (t.host.disk.dropEntries p ((t.host.disk.children p).map Prod.fst)), ?_, (), rfl,
    ht.next hP hc hnew hp, fun c' hc' q hq => (htk c' hc' q hq).dropEntries _ _⟩
  simp [exec_map, exec_emptyContainer hP ht hc hnew hp (htk c hc p hp)]

end Action

/-! ## The second pass: laying out the sections -/

/-- Laying out the sections of a root that has none makes exactly the directories `0` to
`sections - 1` below it. -/
theorem Container.ensureLayout_of_empty {c : Container} {d : Disk} {p : Place}
    (hp : place? c.root = some p) (hs : d.Sound) (hdir : d.node? p = some .dir)
    (hnone : ∀ j : Nat, d.node? (p ++ [toString j]) = none) :
    c.ensureLayout d = .ok (d.laySections p c.sections) := by
  have hplain : ∀ s ∈ p, Path.Plain s := hs.plain p .dir hdir
  unfold Container.ensureLayout Container.sectionNames
  rw [makeDirsAt_of_dir hp hdir]
  show List.foldlM _ d _ = _
  -- the sections are made in increasing order, each one missing until its turn
  induction c.sections with
  | zero => rfl
  | succ n ih =>
    rw [List.range_succ, List.map_append, List.foldlM_append, ih, laySections_succ]
    have hs' := hs.laySections hdir hplain hnone n
    have hdir' : (d.laySections p n).node? p = some .dir := by rw [node?_laySections_self, hdir]
    have hnext : (d.laySections p n).node? (p ++ [toString n]) = none := by
      rw [node?_laySections_next, hnone]
    have hplace := sectionPath_place hp (Path.plain_toString n)
    have hmissing : (d.laySections p n).isDirAt (c.sectionPath (toString n)) = false := by
      rw [isDirAt, nodeAt?_of_place? hs' hplace, hnext]
      rfl
    simp only [List.map_cons, List.map_nil, List.foldlM_cons, List.foldlM_nil, hmissing,
      placeOf_of_place? hplace, makeDir_of_none (hs'.reach_append hdir' _) hnext, bind,
      Except.bind]
    rfl

theorem Container.dirsWith_congr {cs : List Container} {k k' : Container → Nat}
    (h : ∀ c ∈ cs, k c = k' c) : Container.dirsWith cs k = Container.dirsWith cs k' :=
  List.filterMap_congr fun c hc => by rw [h c hc]

namespace Action

/-- Laying out the sections of a root emptied in the first pass, apart from the other roots,
makes exactly its section directories. -/
theorem exec_restoreLayout {t : Store} {D : Disk} {L : List (Place × Nat)} {c : Container}
    {p : Place} (hL : Layout t.repo.containers) (hc : c ∈ t.repo.containers)
    (hp : place? c.root = some p) (hreset : Reset ((p, 0) :: L) D t.host.disk)
    (hroot : D.node? p = some .dir) (hfree : ∀ e ∈ L, ¬ e.1 <+: p) :
    (restoreLayout c.name).exec t = (.ok (), t.withDisk (t.host.disk.laySections p c.sections)) := by
  have hdir : t.host.disk.node? p = some .dir := by rw [hreset.node?_self hfree, hroot]
  have hnone : ∀ j : Nat, t.host.disk.node? (p ++ [toString j]) = none := fun j => by
    rw [hreset.below (p, 0) List.mem_cons_self _ (below_append p (by simp))]
    simp
  have hdirAt : t.host.disk.isDirAt c.root = true := by
    rw [isDirAt, nodeAt?_of_place? hreset.sound hp, hdir]
    rfl
  have hfind : t.repo.container? c.name = some c := hL.find?_name hc
  have hwritable : (do
      let d ← t.host.disk.makeDirsAt c.root
      if d.isDirAt c.root then pure d else throw .notADirectory : IoResult Disk) =
      .ok t.host.disk := by
    simp [makeDirsAt_of_dir hp hdir, hdirAt, bind, Except.bind]
    rfl
  unfold restoreLayout
  simp [exec_bind, exec_container, hfind, hwritable,
    Container.ensureLayout_of_empty hp hreset.sound hdir hnone, Store.withDisk]

/-- After a first pass that emptied every root, the second pass of a purge lays out every
root's sections, and ends well. -/
theorem exec_restoreLayouts {t : Store} {D : Disk} (hL : Layout t.repo.containers)
    (hroots : ∀ c ∈ t.repo.containers, ∀ p, place? c.root = some p → D.node? p = some .dir)
    (hreset : Reset (Container.dirsWith t.repo.containers fun _ => 0) D t.host.disk) :
    ∃ d, restoreLayouts.exec t = (.ok (), t.withDisk d) ∧
      Reset (Container.rootDirs t.repo.containers) D d := by
  obtain ⟨u, t', hloop, d, rfl, hd⟩ : ∃ u t', restoreLayouts.exec t = (.ok u, t') ∧
      ∃ d, t' = t.withDisk d ∧ Reset (Container.dirsWith t.repo.containers
        fun c => if c.name ∈ t.repo.containers.map (·.name) then c.sections else 0) D d := by
    unfold restoreLayouts
    simp only [bind_pure_unit, exec_bind, exec_repo]
    refine Action.exec_forIn_ok_of_passes _ (fun pre _ t' => ∃ d, t' = t.withDisk d ∧
      Reset (Container.dirsWith t.repo.containers
        fun c => if c.name ∈ pre then c.sections else 0) D d) ?_
      ⟨t.host.disk, rfl, by simpa using hreset⟩
    rintro pre x post hl - t' ⟨d, rfl, hd⟩
    obtain ⟨c, hc, rfl, hnew, p, hp⟩ := hL.next_name hl
    have hsplit := Container.mem_dirsWith_split hL.names hc hp
      (m := fun c => if c.name ∈ pre then c.sections else 0) fun _ _ _ => rfl
    have hd0 : Reset ((p, 0) :: Container.dirsWith (t.repo.containers.filter (·.name ≠ c.name))
        fun c => if c.name ∈ pre then c.sections else 0) D d := by
      refine hd.congr fun e => ?_
      rw [hsplit, if_neg hnew]
    have hfree := hL.apart_dirsWith (l := t.repo.containers.filter (·.name ≠ c.name)) hc hp
      (fun c' hc' => by simpa using hc') fun c => if c.name ∈ pre then c.sections else 0
    have hdir : d.node? p = some .dir := by
      rw [hd0.node?_self fun e he => (hfree e he).1, hroots c hc p hp]
    refine ⟨.yield (), t.withDisk (d.laySections p c.sections), ?_, (), rfl, _, rfl, ?_⟩
    · simp [exec_map, exec_restoreLayout (t := t.withDisk d) hL hc hp hd0 (hroots c hc p hp)
        fun e he => (hfree e he).1]
    · refine (hd0.lay hdir (hd0.sound.plain p .dir hdir) (fun e he => hfree e he)
        c.sections).congr fun e => ?_
      rw [Container.mem_dirsWith_split hL.names hc hp
        (m := fun c => if c.name ∈ pre then c.sections else 0) fun c' _ hne => by simp [hne]]
      simp
  refine ⟨d, hloop, hd.congr fun e => ?_⟩
  rw [Container.rootDirs, Container.dirsWith_congr fun c hc => if_pos (List.mem_map_of_mem hc)]

end Action

/-! ## A whole purge -/

theorem Container.dirsWith_map {cs : List Container} {f : Container → Container}
    (hf : ∀ c, (f c).root = c.root) (k : Container → Nat) :
    Container.dirsWith (cs.map f) k = Container.dirsWith cs (k ∘ f) := by
  simp [Container.dirsWith, List.filterMap_map, hf]

theorem Container.rootDirs_map_emptied (cs : List Container) :
    Container.rootDirs (cs.map Container.emptied) = Container.rootDirs cs := by
  rw [Container.rootDirs, Container.rootDirs, Container.dirsWith_map Container.root_emptied]
  rfl

theorem Store.Purgeable.streamsClosed {s : Store} (hP : s.Purgeable) : s.streamsClosed.Purgeable where
  layout := hP.layout
  sound := by simpa [Store.streamsClosed] using hP.sound
  roots := by simpa [Store.streamsClosed] using hP.roots

namespace Action

variable {s s' t : Store}

/-- A purge whose first pass ends well lays out every root again and ends well. -/
theorem exec_purge_of_emptied (hP : s.Purgeable) {u : Unit}
    (h : emptyContainers.exec s.streamsClosed = (.ok u, t)) :
    ∃ d, purge.exec s = (.ok (), { s.streamsClosed.withDisk d with repo := s.repo.purged }) ∧
      Reset (Container.rootDirs s.repo.containers) s.host.disk d := by
  obtain ⟨ht, hreset⟩ := exec_emptyContainers_of_ok hP.streamsClosed h
  generalize t.host.disk = d1 at ht hreset
  have hroots : ∀ c ∈ t.repo.containers, ∀ p, place? c.root = some p →
      s.host.disk.node? p = some .dir := by
    rw [ht]
    intro c hc p hp
    obtain ⟨b, hb, rfl⟩ := List.mem_map.1 hc
    exact hP.roots b hb p hp
  obtain ⟨d, hrun, hd⟩ := exec_restoreLayouts (t := t)
    (by rw [ht]; exact hP.layout.of_map _ fun c => ⟨rfl, rfl, rfl⟩) hroots
    (by rw [ht]; simpa [Store.streamsClosed, Container.dirsWith_map Container.root_emptied,
      Function.comp_def] using hreset)
  subst ht
  refine ⟨d, ?_, by simpa [Store.streamsClosed, Container.rootDirs_map_emptied] using hd⟩
  unfold purge
  simp only [exec_bind, exec_closeAllStreams, h, hrun, exec_track]
  rfl

theorem purged_of_ok (hP : s.Purgeable) {u : Unit} (h : purge.exec s = (.ok u, s')) :
    s.Purged s' := by
  rcases h1 : emptyContainers.exec s.streamsClosed with ⟨_ | u1, t⟩
  · -- a first pass that fails fails the purge
    unfold purge at h
    simp [exec_bind, exec_closeAllStreams, h1] at h
  · obtain ⟨d, h', hd⟩ := exec_purge_of_emptied hP h1
    rw [h', Prod.mk.injEq] at h
    rw [← h.2]
    exact ⟨rfl, rfl, hd⟩

theorem exec_purge (hP : s.Purgeable)
    (hk : ∀ c ∈ s.repo.containers, ∀ p, place? c.root = some p → s.host.disk.KeyedBelow p) :
    ∃ s', purge.exec s = (.ok (), s') ∧ s.Purged s' := by
  rcases h1 : emptyContainers.exec s.streamsClosed with ⟨_ | u1, t⟩
  · exact absurd h1 (exec_emptyContainers_ne_error hP.streamsClosed
      (by simpa [Store.streamsClosed] using hk) _ _)
  · obtain ⟨d, h', hd⟩ := exec_purge_of_emptied hP h1
    exact ⟨_, h', rfl, rfl, hd⟩

end Action

/-! ## A purged store, purged again -/

namespace Store.Purged

variable {s s' s'' : Store} {c : Container} {p : Place}

theorem mem_containers (h : s.Purged s') (hc : c ∈ s'.repo.containers) :
    ∃ b ∈ s.repo.containers, c = b.emptied := by
  rw [h.repo] at hc
  obtain ⟨b, hb, rfl⟩ := List.mem_map.1 hc
  exact ⟨b, hb, rfl⟩

theorem cleared (h : s.Purged s') (hc : c ∈ s'.repo.containers) :
    c.gate.archived = 0 ∧ c.oldest = 0 ∧ c.reclaimable.items = [] ∧ c.archived.items = [] := by
  obtain ⟨b, -, rfl⟩ := h.mem_containers hc
  exact b.emptied_cleared

theorem below (h : s.Purged s') (hc : c ∈ s'.repo.containers) (hp : place? c.root = some p)
    (q : Place) (hq : Below p q) :
    s'.host.disk.node? q = if ∃ j < c.sections, q = p ++ [toString j] then some .dir else none := by
  obtain ⟨b, hb, rfl⟩ := h.mem_containers hc
  exact h.disk.below (p, b.sections) (Container.mem_dirsWith.2 ⟨b, hb, hp, rfl⟩) q hq

theorem node?_deeper (h : s.Purged s') (hc : c ∈ s'.repo.containers) (hp : place? c.root = some p)
    (x y : String) (rest : List String) : s'.host.disk.node? (p ++ x :: y :: rest) = none := by
  rw [h.below hc hp _ (below_append p (by simp)), if_neg]
  rintro ⟨j, -, hj⟩
  simpa using congrArg List.length hj

theorem keyed (h : s.Purged s') (hc : c ∈ s'.repo.containers) (hp : place? c.root = some p) :
    s'.host.disk.KeyedBelow p := by
  obtain ⟨b, hb, rfl⟩ := h.mem_containers hc
  exact h.disk.keyed (p, b.sections) (Container.mem_dirsWith.2 ⟨b, hb, hp, rfl⟩)

theorem purgeable (hP : s.Purgeable) (h : s.Purged s') : s'.Purgeable where
  layout := by
    rw [h.repo]
    exact hP.layout.of_map _ fun c => ⟨rfl, rfl, rfl⟩
  sound := h.disk.sound
  roots c hc p hp := by
    obtain ⟨b, hb, rfl⟩ := h.mem_containers hc
    -- a root is neither reset itself nor below another root
    rw [h.disk.node?_of_apart fun e he => ?_]
    · exact hP.roots b hb p hp
    obtain ⟨c', hc', hq, -⟩ := Container.mem_dirsWith.1 he
    by_cases hn : c'.name = b.name
    · obtain rfl := List.inj_on_of_nodup_map hP.layout.names hc' hb hn
      exact .inr (Option.some_inj.1 (hq.symm.trans hp))
    · exact .inl (hP.layout.apart c' hc' b hb hn _ _ hq hp)

theorem again (h : s.Purged s') (h' : s'.Purged s'') : s''.Same s' where
  repo := by rw [h'.repo, h.repo, Repo.purged_purged]
  host := by
    rw [h'.host]
    have hnone : s'.repo.streams = [] := by rw [h.repo]; rfl
    simp [hnone]
  disk := by
    have h2 := h'.disk
    rw [h.repo, Repo.purged, Container.rootDirs_map_emptied] at h2
    exact h.disk.same h2

end Store.Purged

theorem Action.exec_purge_twice {s s' : Store} (hP : s.Purgeable) (h : purge.exec s = (.ok (), s')) :
    ∃ s'', (purge >>= fun _ => purge).exec s = (.ok (), s'') ∧ s''.Same s' := by
  have hs' := Action.purged_of_ok hP h
  obtain ⟨s'', h2, hs''⟩ := Action.exec_purge (hs'.purgeable hP) fun c hc p hp => hs'.keyed hc hp
  exact ⟨s'', by rw [Action.exec_bind_ok _ h, h2], hs'.again hs''⟩

end ClaimStore
