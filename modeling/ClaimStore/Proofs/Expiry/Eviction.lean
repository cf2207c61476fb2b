import ClaimStore.Proofs.Expiry.Sweeping
/-!
# Eviction for space

When usable space is short, a pass that rescans the archive directories deletes the expired
files, sorts the others by age, keeping scan order among equals, and deletes them oldest first
until one of three things stops it: the bytes freed reach the shortfall, a reading of the probe
(taken after every 25th deletion, starting with the first) reports enough space, or the files run
out. What is left goes back to the queue.

These statements need the disk to list each place once (`Disk.Keyed`), as a file system does:
then the files a scan finds are at distinct places and each deletion deletes one of them
(`Sweep.DistinctFiles`).

Main statement: `Container.expire_evicts_oldest_first`.
-/

set_option autoImplicit false

namespace ClaimStore

open ClaimStore.FileSystem ClaimStore.Path

namespace FileSystem.Disk

variable {d d' : Disk} {p : Place}

/-- A disk lists each place once. -/
def Keyed (d : Disk) : Prop := (d.nodes.map Prod.fst).Nodup

instance (d : Disk) : Decidable d.Keyed := inferInstanceAs (Decidable (d.nodes.map Prod.fst).Nodup)

theorem Keyed.of_sublist (hk : d.Keyed) (h : List.Sublist d'.nodes d.nodes) : d'.Keyed :=
  List.Nodup.sublist (h.map Prod.fst) hk

theorem removeFile_eq_drop (h : d.removeFile p = .ok d') : d' = d.drop p := by
  unfold removeFile at h
  cases hl : d.lookup p with
  | error e => simp [hl, bind, Except.bind] at h
  | ok o =>
    rw [hl] at h
    rcases o with _ | _ | i <;> simp [bind, Except.bind, throw, throwThe, MonadExceptOf.throw,
      pure, Except.pure] at h
    exact h.symm

theorem Keyed.node?_of_mem (hk : d.Keyed) {q : Place} {m : Node} (hq : q ≠ [])
    (h : (q, m) ∈ d.nodes) : d.node? q = some m := by
  rw [node?_of_ne_nil _ hq]
  obtain ⟨e, he⟩ : ∃ e, d.nodes.find? (·.1 == q) = some e :=
    Option.isSome_iff_exists.1 (List.find?_isSome.2 ⟨_, h, by simp⟩)
  have hkey : e.1 = q := by simpa using List.find?_some he
  -- the entry found and the one given have the same place, so they are the same entry
  have heq : e = (q, m) := List.inj_on_of_nodup_map hk (List.mem_of_find?_eq_some he) h hkey
  simp [he, heq]

/-- A directory of a keyed disk lists each name once. -/
theorem Keyed.children_names (hk : d.Keyed) (p : Place) : ((d.children p).map Prod.fst).Nodup := by
  unfold children
  refine ((List.mergeSort_perm _ _).map Prod.fst).nodup_iff.2 ?_
  have hname : ∀ (q : Place) (b : String), b ∈ (if q.length = p.length + 1 && p.isPrefixOf q
      then q.getLast? else none) → q = p ++ [b] := by
    intro q b hb
    split at hb
    · rename_i hcond
      simp only [Bool.and_eq_true, decide_eq_true_eq, List.isPrefixOf_iff_prefix] at hcond
      obtain ⟨⟨t, rfl⟩, hlen⟩ := And.symm hcond
      obtain ⟨x, rfl⟩ : ∃ x, t = [x] := by
        rcases t with _ | ⟨x, _ | ⟨y, t⟩⟩ <;> simp_all
      simpa using hb
    · cases hb
  have hmap : (d.nodes.filterMap fun e => if e.1.length = p.length + 1 && p.isPrefixOf e.1 then
        e.1.getLast?.map (·, e.2) else none).map Prod.fst =
      (d.nodes.map Prod.fst).filterMap fun q => if q.length = p.length + 1 && p.isPrefixOf q then
        q.getLast? else none := by
    rw [List.map_filterMap, List.filterMap_map]
    congr 1
    funext e
    simp only [Function.comp]
    split
    · simp [Option.map_map, Function.comp_def]
    · rfl
  rw [hmap]
  exact List.Nodup.filterMap (fun q q' b hb hb' => (hname q b hb).trans (hname q' b hb').symm) hk

end FileSystem.Disk

namespace Sweep

variable {s : Sweep} {root : Place}

/-- Entries that name regular files, each at a place of its own. -/
def DistinctFiles (s : Sweep) (es : List Archive.Entry) : Prop :=
  es.Pairwise (fun e e' => place? e.path ≠ place? e'.path) ∧
    ∀ e ∈ es, ∃ p i, place? e.path = some p ∧ s.disk.node? p = some (.file i)

theorem place_of_mem_section (hroot : place? s.container.root = some root) (hs : s.disk.Sound)
    (j : Nat) {path : String} {i : Nat}
    (hx : (path, i) ∈ s.container.archivedFiles s.disk (toString j)) :
    ∃ n, (n, .file i) ∈ s.disk.children (root ++ [toString j, Archive.dirName]) ∧
      ∀ size lm, place? (Archive.Entry.create s.container.root path size lm).path =
        some (root ++ [toString j, Archive.dirName, n]) := by
  obtain ⟨-, n, hn, rfl⟩ :=
    (Container.mem_archivedFiles (Container.archiveDir_place hroot (plain_toString j))).1 hx
  exact ⟨n, hn, place?_entry hroot j (hs.plain_of_children hn)⟩

/-- On a keyed sound disk, the entries of a scan name regular files at distinct places. -/
theorem scan_distinct (hroot : place? s.container.root = some root) (hs : s.disk.Sound)
    (hk : s.disk.Keyed) : s.DistinctFiles s.scan := by
  refine ⟨?_, fun e he => ?_⟩
  · unfold scan
    rw [List.pairwise_flatMap]
    refine ⟨fun sec hsec => ?_, ?_⟩
    · -- within a section, the names are distinct
      obtain ⟨j, -, rfl⟩ := List.mem_map.1 hsec
      rw [List.pairwise_map]
      unfold Container.archivedFiles
      simp only [Container.archiveDir_place hroot (plain_toString j)]
      split
      · rw [List.pairwise_filterMap]
        refine (List.pairwise_map.1 (hk.children_names _)).imp_of_mem ?_
        rintro ⟨n, node⟩ ⟨n', node'⟩ ha ha' hne b hb b' hb'
        cases node <;> cases node' <;> simp only [reduceCtorEq,
          Option.some.injEq] at hb hb'
        subst hb hb'
        rw [place?_entry hroot j (hs.plain_of_children ha),
          place?_entry hroot j (hs.plain_of_children ha')]
        simpa using hne
      · exact List.Pairwise.nil
    · -- sections are distinct, and their archive directories differ
      unfold Container.sectionNames
      rw [List.pairwise_map]
      refine (List.pairwise_lt_range).imp fun {j j'} hjj' x hx y hy => ?_
      obtain ⟨⟨path, i⟩, hpath, rfl⟩ := List.mem_map.1 hx
      obtain ⟨⟨path', i'⟩, hpath', rfl⟩ := List.mem_map.1 hy
      obtain ⟨n, -, hn⟩ := place_of_mem_section hroot hs j hpath
      obtain ⟨n', -, hn'⟩ := place_of_mem_section hroot hs j' hpath'
      simp only [hn, hn', ne_eq, Option.some.injEq, List.append_cancel_left_eq, List.cons.injEq,
        not_and]
      exact fun h => absurd (toString_inj h) (Nat.ne_of_lt hjj')
  · obtain ⟨j, -, n, i, hp, hmem, -⟩ := scan_place hroot hs he
    exact ⟨_, i, hp, hk.node?_of_mem (by simp) hmem⟩

namespace DistinctFiles

variable {es es' : List Archive.Entry}

theorem perm (h : s.DistinctFiles es) (hp : es'.Perm es) : s.DistinctFiles es' :=
  ⟨h.1.perm hp.symm Ne.symm, fun e he => h.2 e (hp.subset he)⟩

theorem sublist (h : s.DistinctFiles es) (hl : es'.Sublist es) : s.DistinctFiles es' :=
  ⟨h.1.sublist hl, fun e he => h.2 e (hl.subset he)⟩

theorem delete {e : Archive.Entry} (h : s.DistinctFiles (e :: es)) (hs : s.disk.Sound) :
    (s.delete e).1 = true ∧ (s.delete e).2.DistinctFiles es ∧ (s.delete e).2.disk.Sound := by
  obtain ⟨p, i, hp, hi⟩ := h.2 e List.mem_cons_self
  obtain ⟨hne, hrest⟩ := List.pairwise_cons.1 h.1
  rw [delete_of_file hp hs hi]
  refine ⟨rfl, ⟨hrest, fun e' he' => ?_⟩, hs.drop p⟩
  obtain ⟨p', i', hp', hi'⟩ := h.2 e' (List.mem_cons_of_mem e he')
  have hpp : p' ≠ p := fun hpp => hne e' he' (by rw [hp, hp', hpp])
  exact ⟨p', i', hp', by simpa [Disk.node?_drop_file hs hi, hpp] using hi'⟩

theorem deleteAll {es₀ : List Archive.Entry} (h : s.DistinctFiles (es₀ ++ es))
    (hs : s.disk.Sound) : (s.deleteAll es₀).DistinctFiles es ∧ (s.deleteAll es₀).disk.Sound := by
  induction es₀ generalizing s with
  | nil => exact ⟨h, hs⟩
  | cons e es₀ ih =>
    obtain ⟨-, h', hs'⟩ := delete h hs
    exact ih h' hs'

end DistinctFiles

theorem sweepExpired_result (threshold : Nat) (overBudget : Bool) {es : List Archive.Entry}
    (r : Expiry) (s : Sweep) (kept : List Archive.Entry) (oldest : Nat) (hd : s.DistinctFiles es)
    (hs : s.disk.Sound) :
    (sweepExpired threshold overBudget es (r, s, kept, oldest)).1 =
      { r with
        deletedExpired := r.deletedExpired + (es.filter (·.lastModified < threshold)).length
        freedBytes := r.freedBytes + ((es.filter (·.lastModified < threshold)).map (·.size)).sum } := by
  induction es generalizing r s kept oldest with
  | nil => simp [sweepExpired]
  | cons e es ih =>
    by_cases hexp : e.lastModified < threshold
    · obtain ⟨hok, hd', hs'⟩ := hd.delete hs
      simp only [sweepExpired, hexp, if_true, hok, ih _ _ _ _ hd' hs']
      simp [Expiry.count, hexp]
      omega
    · simp only [sweepExpired, hexp, if_false, ih _ _ _ _ (hd.sublist (List.sublist_cons_self e es)) hs]
      simp [hexp]

/-- Whether deleting candidates for space stops after the first `k` of them, counting indices
from `j`: the bytes freed reach the shortfall, a reading after the `k`-th deletion (taken when
its index is a multiple of 25) reports more than the minimum, or the candidates run out. -/
def SpaceStop (probe : Probe) (toFree minUsable freed : Nat) (s : Sweep) (C : List Archive.Entry)
    (j k : Nat) : Prop :=
  toFree ≤ freed + ((C.take k).map (·.size)).sum ∨
    (0 < k ∧ (j + k - 1) % probeEvery = 0 ∧
      ∃ u, (s.deleteAll (C.take k)).usable probe = .ok u ∧ minUsable < u) ∨
    k = C.length

section SpaceStop

variable {probe : Probe} {toFree minUsable freed : Nat} {C : List Archive.Entry} {j : Nat}

theorem spaceStop_zero : SpaceStop probe toFree minUsable freed s C j 0 ↔ toFree ≤ freed ∨ C = [] := by
  simp [SpaceStop, eq_comm]

theorem spaceStop_succ {e : Archive.Entry} {i : Nat} :
    SpaceStop probe toFree minUsable freed s (e :: C) j (i + 1) ↔
      (i = 0 ∧ j % probeEvery = 0 ∧ ∃ u, (s.delete e).2.usable probe = .ok u ∧ minUsable < u) ∨
        SpaceStop probe toFree minUsable (freed + e.size) (s.delete e).2 C (j + 1) i := by
  unfold SpaceStop
  rcases i with _ | i
  · simp only [List.take_zero, List.map_nil, List.sum_nil, Nat.add_zero, List.take_succ_cons,
      List.map_cons, List.sum_cons, deleteAll_cons, deleteAll_nil, List.length_cons]
    simp [eq_comm, List.length_eq_zero_iff, or_left_comm]
  · have hidx : j + (i + 1 + 1) - 1 = j + 1 + (i + 1) - 1 := by omega
    simp only [List.take_succ_cons, List.map_cons, List.sum_cons, deleteAll_cons,
      List.length_cons, hidx, Nat.add_assoc]
    simp

end SpaceStop

/-- Deleting distinct files for space from index `j` deletes the first `k` of them, for the
first `k` at which deletion stops, and counts each. -/
theorem sweepSpace_run {probe : Probe} (hp : probe.Answers) (toFree minUsable : Nat)
    (C : List Archive.Entry) (j : Nat) (r : Expiry) (s : Sweep) (hs : s.disk.Sound)
    (hd : s.DistinctFiles C) :
    ∃ k, SpaceStop probe toFree minUsable r.freedBytes s C j k ∧
      (∀ i < k, ¬ SpaceStop probe toFree minUsable r.freedBytes s C j i) ∧
      sweepSpace probe toFree minUsable ((C.zipIdx j).map Prod.swap) (r, s, j) =
        (.ok (),
          { r with
            deletedForSpace := r.deletedForSpace + k
            freedBytes := r.freedBytes + ((C.take k).map (·.size)).sum },
          s.deleteAll (C.take k), j + k) := by
  induction C generalizing j r s with
  | nil => exact ⟨0, by simp [spaceStop_zero], by simp, by simp [sweepSpace]⟩
  | cons e C ih =>
    by_cases hb : toFree ≤ r.freedBytes
    · -- the shortfall is met before the first candidate
      exact ⟨0, spaceStop_zero.2 (.inl hb), by simp, by simp [sweepSpace, hb]⟩
    · obtain ⟨hok, hd', hs'⟩ := hd.delete hs
      obtain ⟨u, hu⟩ : ∃ u, (s.delete e).2.usable probe = .ok u := hp _ _
      have hcount : r.count false e.size =
          { r with deletedForSpace := r.deletedForSpace + 1, freedBytes := r.freedBytes + e.size } :=
        rfl
      by_cases hc : j % probeEvery = 0 ∧ minUsable < u
      · -- the reading after the first deletion reports enough space
        refine ⟨1, spaceStop_succ.2 (.inl ⟨rfl, hc.1, u, hu, hc.2⟩), ?_, ?_⟩
        · intro i hi
          obtain rfl : i = 0 := by omega
          rw [spaceStop_zero]
          simp [hb]
        · simp [sweepSpace, hb, hok, hcount, hc.1, hu, hc.2]
      · obtain ⟨k, hstop, hmin, hrun⟩ := ih (j + 1) (r.count false e.size) (s.delete e).2 hs' hd'
        have hfirst : ¬ (j % probeEvery = 0 ∧
            ∃ u, (s.delete e).2.usable probe = .ok u ∧ minUsable < u) := by
          rintro ⟨hj, u', hu', hlt⟩
          rw [hu] at hu'
          cases hu'
          exact hc ⟨hj, hlt⟩
        refine ⟨k + 1, spaceStop_succ.2 (.inr (by simpa [hcount] using hstop)), ?_, ?_⟩
        · intro i hi
          rcases i with _ | i
          · rw [spaceStop_zero]
            simp [hb]
          · rw [spaceStop_succ]
            rintro (⟨-, hA⟩ | hB)
            · exact hfirst hA
            · exact hmin i (by omega) (by simpa [hcount] using hB)
        · -- below the reading's threshold, or between readings, the sweep goes on
          have hrec : sweepSpace probe toFree minUsable (((e :: C).zipIdx j).map Prod.swap)
              (r, s, j) = sweepSpace probe toFree minUsable ((C.zipIdx (j + 1)).map Prod.swap)
                (r.count false e.size, (s.delete e).2, j + 1) := by
            by_cases hj : j % probeEvery = 0
            · have hle : ¬ minUsable < u := fun h => hc ⟨hj, h⟩
              simp [sweepSpace, hb, hok, hj, hu, hle]
            · simp [sweepSpace, hb, hok, hj]
          rw [hrec, hrun, hcount]
          simp only [List.take_succ_cons, List.map_cons, List.sum_cons, deleteAll_cons]
          simp only [Prod.mk.injEq, Expiry.mk.injEq, true_and, and_true]
          omega

theorem delete_archived (s : Sweep) (e : Archive.Entry) :
    (s.delete e).2.container.archived = s.container.archived := by
  unfold delete
  split <;> rfl

theorem front_cases {c : Prop} [Decidable c] {r0 r1 : Expiry} {s0 s1 : Sweep}
    {A : Expiry × Sweep} (h : (if c then A else (r0, s0)) = (r1, s1)) :
    (c ∧ s1 = A.2) ∨ (¬c ∧ r1 = r0 ∧ s1 = s0) := by
  split at h
  · exact .inl ⟨‹_›, by rw [h]⟩
  · obtain ⟨rfl, rfl⟩ := Prod.mk.inj h
    exact .inr ⟨‹_›, rfl, rfl⟩

theorem size_of_poll {s0 s1 : Sweep} {head : Archive.Entry}
    (hpeek : s0.container.archived.peek = some head)
    (hq : s1.container.archived = s0.container.archived.poll.2) :
    s1.container.archived.size + 1 = s0.container.archived.size := by
  obtain ⟨ys, hys⟩ := List.head?_eq_some_iff.1 hpeek
  simp [Fifo.size, hq, hys]

/-- A queue phase that hands the pass over to the scan has emptied the queue: it takes one file
from the front at each step. -/
theorem fromQueue_none_empty (threshold toFree now fuel : Nat) (r : Expiry) (s : Sweep)
    (h : (fromQueue threshold toFree now fuel r s).1 = none)
    (hf : s.container.archived.size < fuel) :
    (fromQueue threshold toFree now fuel r s).2.2.container.archived.items = [] := by
  fun_induction fromQueue threshold toFree now fuel r s
  case case1 => simp at hf
  case case2 hpeek => simpa [Fifo.peek] using hpeek
  case case3 fuel r0 s0 head hpeek expired r1 s1 hfront hge next hnext hexp ih =>
    refine ih h ?_
    rcases front_cases hfront with ⟨-, hs1⟩ | ⟨hc, rfl, rfl⟩
    · -- the front was taken from the queue
      have := size_of_poll hpeek (hs1 ▸ delete_archived _ head)
      omega
    · -- had the front stayed, it would be the next one, and expired
      rw [hpeek] at hnext
      cases hnext
      exact absurd (by simp only [Bool.or_eq_true, decide_eq_true_eq]; exact .inr hexp) hc
  case case4 => simp at h
  case case5 => simp at h
  case case6 fuel r0 s0 head hpeek expired r1 s1 hfront hlt ih =>
    refine ih h ?_
    rcases front_cases hfront with ⟨-, hs1⟩ | ⟨hc, rfl, -⟩
    · have := size_of_poll hpeek (hs1 ▸ delete_archived _ head)
      omega
    · -- short of the budget, the front is always taken
      exact absurd (by simp only [Bool.or_eq_true, decide_eq_true_eq]; exact .inl (by omega)) hc

/-- What holds of every step of the queue phase (taking the front and deleting it, and
recording the oldest age) holds of the whole phase. -/
theorem fromQueue_rel (R : Sweep → Sweep → Prop) (hrefl : ∀ s, R s s)
    (htrans : ∀ {a b c}, R a b → R b c → R a c)
    (hfront : ∀ (s : Sweep) (e : Archive.Entry),
      R s ({ s with container := { s.container with archived := s.container.archived.poll.2 } }.delete e).2)
    (hsettle : ∀ (s : Sweep) (r : Expiry) (oldest : Nat), R s (s.settle r oldest).2)
    (threshold toFree now fuel : Nat) (r : Expiry) (s : Sweep) :
    R s (fromQueue threshold toFree now fuel r s).2.2 := by
  fun_induction fromQueue threshold toFree now fuel r s
  case case1 => exact hrefl _
  case case2 => exact hrefl _
  case case3 fuel r0 s0 head hpeek expired r1 s1 hf hge next hnext hexp ih =>
    rcases front_cases hf with ⟨-, hs1⟩ | ⟨-, -, rfl⟩
    · exact htrans (hs1 ▸ hfront s0 head) ih
    · exact ih
  case case4 fuel r0 s0 head hpeek expired r1 s1 hf hge next hnext hexp r2 s2 hs =>
    have h2 : R s1 s2 := by
      rw [show s2 = _ from (congrArg Prod.snd hs).symm]
      exact hsettle _ _ _
    rcases front_cases hf with ⟨-, hs1⟩ | ⟨-, -, rfl⟩
    · exact htrans (hs1 ▸ hfront s0 head) h2
    · exact h2
  case case5 fuel r0 s0 head hpeek expired r1 s1 hf hge hnone r2 s2 hs =>
    have h2 : R s1 s2 := by
      rw [show s2 = _ from (congrArg Prod.snd hs).symm]
      exact hsettle _ _ _
    rcases front_cases hf with ⟨-, hs1⟩ | ⟨-, -, rfl⟩
    · exact htrans (hs1 ▸ hfront s0 head) h2
    · exact h2
  case case6 fuel r0 s0 head hpeek expired r1 s1 hf hlt ih =>
    rcases front_cases hf with ⟨-, hs1⟩ | ⟨-, -, rfl⟩
    · exact htrans (hs1 ▸ hfront s0 head) ih
    · exact ih

theorem delete_nodes (s : Sweep) (e : Archive.Entry) :
    List.Sublist (s.delete e).2.disk.nodes s.disk.nodes := by
  unfold delete
  split
  · rename_i d hd
    unfold Disk.removeFileAt at hd
    cases hp : Disk.placeOf e.path with
    | error err => simp [hp, bind, Except.bind] at hd
    | ok p =>
      simp only [hp, bind, Except.bind] at hd
      rw [Disk.removeFile_eq_drop hd]
      exact List.filter_sublist
  · exact List.Sublist.refl _

theorem fromQueue_keyed (threshold toFree now fuel : Nat) (r : Expiry) (s : Sweep) :
    (fromQueue threshold toFree now fuel r s).2.2.container.archived.bound =
        s.container.archived.bound ∧
      List.Sublist (fromQueue threshold toFree now fuel r s).2.2.disk.nodes s.disk.nodes :=
  fromQueue_rel (fun s s' => s'.container.archived.bound = s.container.archived.bound ∧
      List.Sublist s'.disk.nodes s.disk.nodes)
    (fun _ => ⟨rfl, List.Sublist.refl _⟩) (fun h h' => ⟨h'.1.trans h.1, h'.2.trans h.2⟩)
    (fun s e => ⟨by rw [delete_archived]; rfl, delete_nodes _ e⟩)
    (fun _ _ _ => ⟨rfl, List.Sublist.refl _⟩) threshold toFree now fuel r s

end Sweep

theorem Fifo.offer_getD_items {α : Type} (q : Fifo α) (x : α) :
    ((q.offer x).getD q).items = if q.items.length < q.bound then q.items ++ [x] else q.items := by
  unfold Fifo.offer
  split <;> simp_all

theorem Fifo.offer_getD_bound {α : Type} (q : Fifo α) (x : α) : ((q.offer x).getD q).bound = q.bound := by
  unfold Fifo.offer
  split <;> rfl

theorem Fifo.foldl_offer {α β : Type} (f : Fifo α × β → α → Fifo α × β)
    (hf : ∀ q b x, (f (q, b) x).1 = (q.offer x).getD q) (L : List α) (q : Fifo α) (b : β) :
    (L.foldl f (q, b)).1.items = q.items ++ L.take (q.bound - q.items.length) := by
  induction L generalizing q b with
  | nil => simp
  | cons x L ih =>
    rw [List.foldl_cons, ← Prod.eta (f (q, b) x), ih, hf, Fifo.offer_getD_items,
      Fifo.offer_getD_bound]
    by_cases hlt : q.items.length < q.bound
    · obtain ⟨t, ht⟩ : ∃ t, q.bound - q.items.length = t + 1 := ⟨_, (Nat.succ_pred_eq_of_pos
        (Nat.sub_pos_of_lt hlt)).symm⟩
      have ht' : q.bound - (q.items.length + 1) = t := by omega
      simp [hlt, ht, ht']
    · have h0 : q.bound - q.items.length = 0 := by omega
      simp [hlt, h0]

section Rescan

variable {c : Container} {d : Disk} {probe : Probe} {now retention m U : Nat} {r1 : Expiry}
  {s1 : Sweep} {root : Place}

theorem rescan_start (hroot : place? c.root = some root) (hd : d.Sound) (hk : d.Keyed)
    (hq : Sweep.fromQueue (now - retention) (m - U) now (c.archived.size + 1) {} ⟨c, d⟩ =
      (none, r1, s1)) :
    s1.container.archived.items = [] ∧ s1.container.archived.bound = c.archived.bound ∧
      place? s1.container.root = some root ∧ s1.container.sections = c.sections ∧
      s1.disk.Sound ∧ s1.disk.Keyed := by
  have hdel := Sweep.Deletes.of_fromQueue hq
  have hkeep := Sweep.fromQueue_keyed (now - retention) (m - U) now (c.archived.size + 1) {} ⟨c, d⟩
  have hempty := Sweep.fromQueue_none_empty (now - retention) (m - U) now (c.archived.size + 1) {}
    ⟨c, d⟩ (by rw [hq]) (by simp)
  rw [hq] at hkeep hempty
  exact ⟨hempty, hkeep.1, hdel.root ▸ hroot, hdel.sections, hdel.unlinked hd |>.sound hd,
    hk.of_sublist hkeep.2⟩

/-- A rescanning pass, once the scan has been swept of expired files (`r2`, `s2`) and the rest
sorted (`C`), deletes for space by `sweepSpace` and refills the queue with what is left. -/
theorem expire_of_rescan (hm : c.minUsable = some m) (hu : (Sweep.mk c d).usable probe = .ok U)
    (hU : U < m)
    (hq : Sweep.fromQueue (now - retention) (m - U) now (c.archived.size + 1) {} ⟨c, d⟩ =
      (none, r1, s1))
    {r2 r3 : Expiry} {s2 s3 : Sweep} {oldest : Nat} {k : Nat}
    (hexp : Sweep.sweepExpired (now - retention) true s1.scan (r1, s1, [], noAge) =
      (r2, s2, s1.scan.filter (now - retention ≤ ·.lastModified), oldest))
    (hspace : Sweep.sweepSpace probe (m - U) m
      (((s1.scan.filter (now - retention ≤ ·.lastModified)).mergeSort
        (fun a b => a.lastModified ≤ b.lastModified)).zipIdx.map Prod.swap) (r2, s2, 0) =
      (.ok (), r3, s3, k)) :
    (∃ r, (c.expire d probe now retention).1 = .ok r ∧ r.deletedForSpace = r3.deletedForSpace) ∧
      (c.expire d probe now retention).2.2 = s3.disk ∧
      (c.expire d probe now retention).2.1.archived.items = s3.container.archived.items ++
        ((((s1.scan.filter (now - retention ≤ ·.lastModified)).mergeSort
          (fun a b => a.lastModified ≤ b.lastModified)).drop k).take archiveQueueCapacity).take
          (s3.container.archived.bound - s3.container.archived.items.length) := by
  have hshort : decide (U < m) = true := by simpa using hU
  have hswap : (fun x : Archive.Entry × Nat => (x.snd, x.fst)) = Prod.swap := rfl
  unfold Container.expire
  simp only [hm, hu, hq, hshort, hexp, hswap, hspace, Sweep.settle]
  refine ⟨⟨_, rfl, rfl⟩, trivial, ?_⟩
  exact Fifo.foldl_offer _ (fun q b x => by cases q.offer x <;> rfl) _ _ _

/-- A pass that rescans with usable space `U` short of the minimum `m` sorts the archived files
that have not expired by age, keeping scan order among equals (`C`), deletes for space exactly
the first `k` of them, for the first `k` at which deletion stops (`Sweep.SpaceStop`: the bytes
freed by the queue, by expired files and by these reach `m - U`, a reading taken after
every 25th deletion reports more than `m`, or the files run out), and queues the rest, as
many as the queue holds. When the pass started with an empty queue, every file it deleted for
space is at most as old as every archived file that has not expired and is left. -/
theorem Container.expire_evicts_oldest_first (hroot : place? c.root = some root) (hd : d.Sound)
    (hk : d.Keyed) (hm : c.minUsable = some m) (hp : probe.Answers)
    (hu : (Sweep.mk c d).usable probe = .ok U) (hU : U < m)
    (hq : Sweep.fromQueue (now - retention) (m - U) now (c.archived.size + 1) {} ⟨c, d⟩ =
      (none, r1, s1)) :
    let X := s1.scan.filter (·.lastModified < now - retention)
    let K := s1.scan.filter (now - retention ≤ ·.lastModified)
    let C := K.mergeSort (fun a b => a.lastModified ≤ b.lastModified)
    let Stop := Sweep.SpaceStop probe (m - U) m (r1.freedBytes + (X.map (·.size)).sum)
      (s1.deleteAll X) C 0
    (C.Pairwise (fun a b => a.lastModified ≤ b.lastModified) ∧ C.Perm K ∧
      ∀ a b, [a, b].Sublist K → a.lastModified ≤ b.lastModified → [a, b].Sublist C) ∧
    ∃ k, Stop k ∧ (∀ i < k, ¬ Stop i) ∧
      (∃ r, (c.expire d probe now retention).1 = .ok r ∧
        r.deletedForSpace = r1.deletedForSpace + k) ∧
      (c.expire d probe now retention).2.1.archived.items =
        (C.drop k).take (min archiveQueueCapacity c.archived.bound) ∧
      (∀ q, (c.expire d probe now retention).2.2.node? q =
        if ∃ e ∈ X ++ C.take k, place? e.path = some q then none else s1.disk.node? q) ∧
      (c.archived.items = [] → ∀ e ∈ C.take k, ∀ j < c.sections, ∀ n,
        (∃ i, (c.expire d probe now retention).2.2.node? (root ++ [toString j, Archive.dirName, n]) =
          some (.file i)) →
        now - retention ≤ lastModTime d (join (c.archiveDir (toString j)) n) →
        e.lastModified ≤ lastModTime d (join (c.archiveDir (toString j)) n)) := by
  intro X K C Stop
  obtain ⟨hempty, hbound, hroot1, hsec, hs1, hk1⟩ := rescan_start hroot hd hk hq
  have hdist := Sweep.scan_distinct hroot1 hs1 hk1
  have hK : K = s1.scan.filter (fun e => !decide (e.lastModified < now - retention)) :=
    List.filter_congr fun e _ => by rw [← decide_not]; exact decide_eq_decide.2 Nat.not_lt.symm
  have hperm : (X ++ C).Perm s1.scan :=
    ((List.Perm.refl X).append (List.mergeSort_perm K _)).trans
      (hK ▸ List.filter_append_perm _ _)
  have hdXC := hdist.perm hperm
  obtain ⟨hdC, hs2⟩ := hdXC.deleteAll hs1
  have hexp : Sweep.sweepExpired (now - retention) true s1.scan (r1, s1, [], noAge) =
      ({ r1 with
          deletedExpired := r1.deletedExpired + X.length
          freedBytes := r1.freedBytes + (X.map (·.size)).sum },
        s1.deleteAll X, K,
        (Sweep.sweepExpired (now - retention) true s1.scan (r1, s1, [], noAge)).2.2.2) := by
    rw [← Sweep.sweepExpired_result _ true r1 s1 [] noAge hdist hs1,
      ← Sweep.sweepExpired_sweep _ true s1.scan r1 s1 [] noAge]
    have hkept := Sweep.sweepExpired_kept (now - retention) true s1.scan r1 s1 [] noAge
    simp only [if_true, List.nil_append] at hkept
    exact Prod.ext rfl (Prod.ext rfl (Prod.ext hkept rfl))
  obtain ⟨k, hstop, hmin, hrun⟩ := Sweep.sweepSpace_run hp (m - U) m C 0 _ _ hs2 hdC
  obtain ⟨⟨r, hr, hdfs⟩, hdisk, hqueue⟩ := expire_of_rescan hm hu hU hq hexp hrun
  -- what the pass leaves: the sweep after deleting the expired files and the first `k` others
  rw [← Sweep.deleteAll_append] at hdisk hqueue
  obtain ⟨g, hg⟩ := Sweep.deleteAll_container s1 (X ++ C.take k)
  have hsub : (X ++ C.take k).Sublist (X ++ C) := (List.take_sublist k C).append_left X
  have hnode : ∀ q, (c.expire d probe now retention).2.2.node? q =
      if ∃ e ∈ X ++ C.take k, place? e.path = some q then none else s1.disk.node? q := by
    intro q
    rw [hdisk, Sweep.deleteAll_node _ _ hs1 fun e he =>
      (hdXC.2 e (hsub.subset he)).imp fun p ⟨_, hp, _⟩ => hp]
    refine if_congr (and_iff_left_of_imp fun ⟨e, he, hq⟩ => ?_) rfl rfl
    obtain ⟨p, i, hp, hi⟩ := hdXC.2 e (hsub.subset he)
    rw [hq, Option.some_inj] at hp
    exact Disk.inode?_isSome.2 ⟨i, hp ▸ hi⟩
  have htrans : ∀ a b c : Archive.Entry, decide (a.lastModified ≤ b.lastModified) = true →
      decide (b.lastModified ≤ c.lastModified) = true →
      decide (a.lastModified ≤ c.lastModified) = true := by
    intro a b c hab hbc
    simp only [decide_eq_true_eq] at *
    omega
  have htotal : ∀ a b : Archive.Entry, (decide (a.lastModified ≤ b.lastModified) ||
      decide (b.lastModified ≤ a.lastModified)) = true := by
    intro a b
    simp only [Bool.or_eq_true, decide_eq_true_eq]
    omega
  have hsorted : C.Pairwise (fun a b => a.lastModified ≤ b.lastModified) := by
    simpa using List.pairwise_mergeSort htrans htotal K
  refine ⟨⟨hsorted, List.mergeSort_perm K _, fun a b hab hle =>
      List.sublist_mergeSort htrans htotal (by simpa using hle) hab⟩,
    k, hstop, hmin, ⟨r, hr, by rw [hdfs]⟩, ?_, hnode, ?_⟩
  · rw [hqueue, hg]
    simp only [hempty, hbound, List.nil_append, List.length_nil, Nat.sub_zero, List.take_take,
      Nat.min_comm, Nat.zero_add]
    rfl
  · -- with nothing queued, the pass saw every archived file, and left the younger ones
    intro hc0 e he j hj n ⟨i, hi⟩ hage
    have hs1eq : s1 = ⟨c, d⟩ := by
      have h0 := Sweep.fromQueue_of_peek (s := ⟨c, d⟩) (by simp [Fifo.peek, hc0])
        (now - retention) (m - U) now (c.archived.size + 1) {}
      rw [hq] at h0
      exact (Prod.mk.inj (Prod.mk.inj h0).2).2
    rw [hnode] at hi
    split at hi
    · cases hi
    · rename_i hkept
      obtain ⟨e', he', hp', -, hlm⟩ := Sweep.scan_of_node? hroot1 hs1 (hsec ▸ hj) hi
      have hC : e' ∈ C := (List.mergeSort_perm K _).symm.subset
        (List.mem_filter.2 ⟨he', by rw [hlm, hs1eq]; simpa using hage⟩)
      have hdrop : e' ∈ C.drop k := by
        rw [← List.take_append_drop k C, List.mem_append] at hC
        exact hC.resolve_left fun h => hkept ⟨e', List.mem_append_right X h, hp'⟩
      have hle := (List.pairwise_append.1 ((List.take_append_drop k C).symm ▸ hsorted)).2.2 e he e' hdrop
      rw [hlm, hs1eq] at hle
      exact hle

end Rescan

/-- A pass over two archived files with one byte of space short and an empty queue answers a
result. -/
theorem Container.expire_evicts_with_empty_queue :
    ∃ r, (Container.expire
      { name := "default", root := "c", sections := 2, gate := Gate.create "default" true 8 0.5,
        reclaimable := Fifo.empty 8, archived := Fifo.empty 100000, minUsable := some 501,
        oldest := 0 }
      ⟨[(["work"], .dir), (["work", "c"], .dir), (["work", "c", "0"], .dir),
        (["work", "c", "0", "archive"], .dir),
        (["work", "c", "0", "archive", "5000000000000-1"], .file 0),
        (["work", "c", "0", "archive", "6000000000000-2"], .file 1), (["work", "c", "1"], .dir)],
        #[⟨⟨#[97, 97]⟩, 0⟩, ⟨⟨#[98, 98]⟩, 0⟩]⟩
      (Probe.Script.probe { usable := .fixed 500 }) 2000000000000 1000).1 = .ok r := by
  exact (Container.expire_evicts_oldest_first (m := 501)
    (show place? "c" = some ["work", "c"] by decide +kernel)
    (Disk.Sound.of_nodes (by decide +kernel)) (by decide +kernel) rfl (Probe.Script.answers rfl) rfl
    (by decide) (Sweep.fromQueue_of_peek rfl _ _ _ _ _)).2.elim fun _ ⟨_, _, ⟨r, hr, _⟩, _⟩ => ⟨r, hr⟩

/-- A pass that takes files from a queue filled by an earlier pass deletes them for space, even
when an older file archived since then is left: here the queued file, whose id gives six trillion
milliseconds, goes for space, and the file archived after it, whose id gives five and a half
trillion, stays, neither of them expired. -/
theorem Container.expire_queue_evicts_newer :
    ∃ (c : Container) (d : Disk) (probe : Probe) (now retention : Nat) (root : Place),
      place? c.root = some root ∧ d.Sound ∧ d.Keyed ∧
      (c.expire d probe now retention).1.toOption.map (·.deletedForSpace) = some 1 ∧
      (c.expire d probe now retention).2.2.node? (root ++ ["0", Archive.dirName, "6000000000000-2"]) =
        none ∧
      (∃ i, d.node? (root ++ ["0", Archive.dirName, "6000000000000-2"]) = some (.file i)) ∧
      (∃ i, (c.expire d probe now retention).2.2.node?
        (root ++ ["1", Archive.dirName, "5500000000000-3"]) = some (.file i)) ∧
      now - retention ≤ lastModTime d (join (c.archiveDir "1") "5500000000000-3") ∧
      lastModTime d (join (c.archiveDir "1") "5500000000000-3") <
        lastModTime d (join (c.archiveDir "0") "6000000000000-2") := by
  refine ⟨
    { name := "default", root := "c", sections := 2, gate := Gate.create "default" true 8 0.5,
      reclaimable := Fifo.empty 8,
      archived := ⟨[⟨"c", "0/archive/6000000000000-2", "6000000000000-2", 10, 6000000000000⟩],
        100000, by decide, by decide⟩,
      minUsable := some 501, oldest := 6000000000000 },
    ⟨[(["work"], .dir), (["work", "c"], .dir), (["work", "c", "0"], .dir),
      (["work", "c", "0", "archive"], .dir),
      (["work", "c", "0", "archive", "6000000000000-2"], .file 0), (["work", "c", "1"], .dir),
      (["work", "c", "1", "archive"], .dir),
      (["work", "c", "1", "archive", "5500000000000-3"], .file 1)],
      #[⟨⟨#[98, 98, 98, 98, 98, 98, 98, 98, 98, 98]⟩, 0⟩,
        ⟨⟨#[99, 99, 99, 99, 99, 99, 99, 99, 99, 99]⟩, 0⟩]⟩,
    (Probe.Script.probe { usable := .fixed 500 }), 2000000000000, 1000, ["work", "c"], by decide +kernel,
    Disk.Sound.of_nodes (by decide +kernel), by decide +kernel, by decide +kernel, by decide +kernel,
    ⟨0, by decide +kernel⟩, ⟨1, by decide +kernel⟩, by decide +kernel, by decide +kernel⟩

end ClaimStore
