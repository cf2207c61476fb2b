import ClaimStore.Proofs.Repo.Cloning
import ClaimStore.Repo.Open
/-!
# Runs of a repository from its opening

A repository opened without background work over container roots that lie apart, with nothing
below them on the disk, satisfies the invariant: opening makes the roots and their section
directories and nothing else (`Disk.Grows`), so no claim's place holds anything yet, and the
tracker, the pool and the table of streams start empty. Every step of a caller keeps the
invariant (`Inv.step`), so it holds of every world a caller reaches (`Reachable.inv`).

The configuration's own checks give what the invariant asks of the containers: distinct names
(a later entry of a name replaces an earlier one) and roots that are not empty.
-/

set_option autoImplicit false

namespace ClaimStore.Config

/-- The containers a configuration resolves to have distinct names: a later entry of a name
replaces an earlier one. -/
theorem orderContainers_nodup (cs : List (String × String)) :
    ((orderContainers cs).map Prod.fst).Nodup := by
  have hfold : ∀ (l acc : List (String × String)), (acc.map Prod.fst).Nodup →
      ((l.foldl (fun acc c => acc.filter (·.1 != c.1) ++ [c]) acc).map Prod.fst).Nodup := by
    intro l
    induction l with
    | nil => exact fun _ h => h
    | cons c l ih =>
      intro acc hacc
      refine ih _ ?_
      rw [List.map_append, List.nodup_append]
      refine ⟨hacc.sublist (List.filter_sublist.map _), List.nodup_singleton _, ?_⟩
      intro a ha b hb hab
      obtain ⟨e, he, rfl⟩ := List.mem_map.1 ha
      rw [List.map_singleton, List.mem_singleton] at hb
      subst hb
      have hne := (List.mem_filter.1 he).2
      rw [bne_iff_ne] at hne
      exact hne hab
  exact ((List.mergeSort_perm _ _).map Prod.fst).nodup_iff.2 (hfold cs [] List.nodup_nil)

theorem checkContainers_roots : ∀ {cs : List (String × String)}, checkContainers cs = .ok () →
    ∀ e ∈ cs, e.2.isEmpty = false
  | [], _ => by simp
  | (name, root) :: rest, h => by
    unfold checkContainers at h
    split at h
    · cases h
    split at h
    · cases h
    next hroot =>
    intro e he
    rcases List.mem_cons.1 he with rfl | he
    · simpa using hroot
    · exact checkContainers_roots h e he

/-- What the configuration's checks promise the repository: containers with distinct names at
roots that are not empty, and appendable claims no longer than the ceiling. -/
structure Resolved.Valid (s : Resolved) : Prop where
  names : (s.containers.map Prod.fst).Nodup
  roots : ∀ e ∈ s.containers, e.2.isEmpty = false
  appendable : s.maxAppendable ≤ appendableCeiling

theorem resolve_valid {cfg : Settings} {s : Resolved} (h : cfg.resolve = .ok s) : s.Valid := by
  unfold Settings.resolve at h
  cases hc : checkContainers (orderContainers cfg.containers) with
  | error e =>
    simp only [bind, Except.bind, throw, throwThe, MonadExceptOf.throw, hc] at h
    split at h <;> cases h
  | ok u =>
    simp only [bind, Except.bind, pure, Except.pure, throw, throwThe, MonadExceptOf.throw, hc] at h
    repeat' split at h
    all_goals cases h
    all_goals exact ⟨orderContainers_nodup _, checkContainers_roots hc, Nat.min_le_right _ _⟩

end ClaimStore.Config

namespace ClaimStore.FileSystem

open ClaimStore.Path

theorem not_mem_of_mem_splitOn {xs l : List Char} {a : Char} (h : l ∈ xs.splitOn a) : a ∉ l := by
  induction xs generalizing l with
  | nil => simp [List.splitOn_nil] at h; subst h; simp
  | cons x xs ih =>
    rw [List.splitOn_cons_eq_if_modifyHead] at h
    split at h
    · rcases List.mem_cons.1 h with rfl | h
      · simp
      · exact ih h
    · rename_i hx
      cases hs : xs.splitOn a with
      | nil => exact absurd hs (List.splitOn_ne_nil a xs)
      | cons l0 rest =>
        rw [hs, List.modifyHead_cons] at h
        rcases List.mem_cons.1 h with rfl | h
        · have h0 := ih (hs ▸ List.mem_cons_self)
          simp only [List.mem_cons, not_or]
          exact ⟨fun he => hx (by simp [he]), h0⟩
        · exact ih (hs ▸ List.mem_cons_of_mem _ h)

theorem plain_stepPlace {p : Place} (hp : ∀ s ∈ p, Plain s) {seg : String} (hseg : '/' ∉ seg.toList) :
    ∀ s ∈ stepPlace p seg, Plain s := by
  unfold stepPlace
  split
  · exact hp
  · split
    · exact fun s hs => hp s (List.dropLast_subset p hs)
    · rename_i h1 h2
      intro s hs
      rcases List.mem_append.1 hs with hs | hs
      · exact hp s hs
      · rw [List.mem_singleton.1 hs]
        simp only [Bool.or_eq_true, decide_eq_true_eq, not_or] at h1
        exact ⟨h1.1, h1.2, h2, hseg⟩

/-- The place of a path is made of plain names. -/
theorem place?_plain {t : String} {p : Place} (h : place? t = some p) : ∀ s ∈ p, Plain s := by
  have hsegs : ∀ seg ∈ (t.toList.splitOn '/').map String.ofList, '/' ∉ seg.toList := by
    intro seg hseg
    obtain ⟨l, hl, rfl⟩ := List.mem_map.1 hseg
    simpa using not_mem_of_mem_splitOn hl
  have hfold : ∀ (segs : List String) (q : Place), (∀ seg ∈ segs, '/' ∉ seg.toList) →
      (∀ s ∈ q, Plain s) → ∀ s ∈ segs.foldl stepPlace q, Plain s := by
    intro segs
    induction segs with
    | nil => exact fun q _ hq => hq
    | cons seg segs ih =>
      intro q hsegs hq
      exact ih _ (fun x hx => hsegs x (List.mem_cons_of_mem _ hx))
        (plain_stepPlace hq (hsegs seg List.mem_cons_self))
  unfold place? at h
  split at h
  · cases h
  · split at h
    · rename_i rest hr
      cases h
      rw [hr] at hsegs
      exact hfold rest [] (fun x hx => hsegs x (List.mem_cons_of_mem _ hx)) (by simp)
    · cases h
      exact hfold _ workPlace hsegs (by decide)

theorem place?_isSome {t : String} (h : t.isEmpty = false) : (place? t).isSome := by
  unfold place?
  simp only [h, Bool.false_eq_true, if_false]
  split <;> rfl

end ClaimStore.FileSystem

namespace ClaimStore.FileSystem.Disk

open ClaimStore.Path

variable {d d' : Disk} {p q : Place}

/-- A disk grown from another by directories at places `S` allows: what was there stays. -/
structure Grows (d d' : Disk) (S : Place → Prop) : Prop where
  inodes : d'.inodes = d.inodes
  node : ∀ q, d'.node? q = d.node? q ∨ (d.node? q = none ∧ d'.node? q = some .dir ∧ S q)

namespace Grows

variable {S T : Place → Prop}

theorem refl (d : Disk) (S : Place → Prop) : Grows d d S := ⟨rfl, fun _ => .inl rfl⟩

theorem trans {d'' : Disk} (h : Grows d d' S) (h' : Grows d' d'' T) :
    Grows d d'' (fun q => S q ∨ T q) where
  inodes := h'.inodes.trans h.inodes
  node q := by
    rcases h.node q with h1 | ⟨h1, h1', hs⟩ <;> rcases h'.node q with h2 | ⟨h2, h2', ht⟩
    · exact .inl (h2.trans h1)
    · exact .inr ⟨h1 ▸ h2, h2', .inr ht⟩
    · exact .inr ⟨h1, h2.trans h1', .inl hs⟩
    · rw [h1'] at h2
      cases h2

theorem mono (h : Grows d d' S) (hST : ∀ q, S q → T q) : Grows d d' T :=
  ⟨h.inodes, fun q => (h.node q).imp_right fun ⟨h1, h2, hs⟩ => ⟨h1, h2, hST q hs⟩⟩

theorem of_some (h : Grows d d' S) {n : Node} (hq : d.node? q = some n) : d'.node? q = some n := by
  rcases h.node q with h1 | ⟨h1, -, -⟩
  · rw [h1, hq]
  · rw [hq] at h1
    cases h1

theorem of_not (h : Grows d d' S) (hq : ¬ S q) : d'.node? q = d.node? q :=
  (h.node q).resolve_right fun ⟨_, _, hs⟩ => hq hs

end Grows

theorem makeDirs_grows (hs : d.Sound) (hplain : ∀ s ∈ p, Plain s) (h : d.makeDirs p = .ok d') :
    d'.Sound ∧ Grows d d' (· <+: p) := by
  obtain ⟨hs', hino, hnode⟩ := makeDirs_eq_ok hs hplain h
  refine ⟨hs', hino, fun q => ?_⟩
  rw [hnode q]
  split
  · next hq => exact .inr ⟨hq.2.2, rfl, hq.2.1⟩
  · exact .inl rfl

theorem makeDir_grows (hs : d.Sound) (hp0 : p ≠ []) (hplain : ∀ s ∈ p, Plain s)
    (h : d.makeDir p = .ok d') : d'.Sound ∧ Grows d d' (· = p) ∧ d'.node? p = some .dir := by
  unfold makeDir at h
  cases hl : d.lookup p with
  | error e => simp [hl, bind, Except.bind] at h
  | ok o =>
    obtain ⟨hr, rfl⟩ := lookup_eq_ok.1 hl
    cases hn : d.node? p with
    | some n => simp [hl, hn, bind, Except.bind, throw, throwThe, MonadExceptOf.throw] at h
    | none =>
      simp only [hl, hn, bind, Except.bind, pure, Except.pure, Except.ok.injEq] at h
      subst h
      have habove : ∀ k, k < p.length → d.node? (p.take k) = some .dir := by
        intro k hk
        rcases Nat.eq_zero_or_pos k with rfl | hk0
        · simp [node?_nil]
        · exact (reach_eq_ok d p).1 hr k hk0 hk
      refine ⟨hs.set hp0 habove hplain hn .dir, ⟨rfl, fun q => ?_⟩, by simp [hp0]⟩
      rw [node?_set]
      split
      · next hq => exact .inr ⟨hq.1 ▸ hn, rfl, hq.1⟩
      · exact .inl rfl

theorem node?_of_isDirAt {t : String} (h : d.isDirAt t = true) (hq : place? t = some q) :
    d.node? q = some .dir := by
  simp only [isDirAt, nodeAt?, hq, beq_iff_eq] at h
  unfold stat at h
  cases hl : d.lookup q with
  | error e => simp [hl, bind, Except.bind, Except.toOption] at h
  | ok o =>
    obtain ⟨-, rfl⟩ := lookup_eq_ok.1 hl
    cases hn : d.node? q with
    | none => simp [hl, hn, bind, Except.bind, Except.toOption, throw, throwThe, MonadExceptOf.throw] at h
    | some n =>
      simp [hl, hn, bind, Except.bind, Except.toOption, pure, Except.pure] at h
      rw [h]

end ClaimStore.FileSystem.Disk

namespace ClaimStore.Container

open ClaimStore.FileSystem ClaimStore.Path

variable {c : Container} {p : Place}

theorem foldl_layOutStep_error (c : Container) (L : List String) (e : IoError) (d : FileSystem.Disk) :
    L.foldl c.layOutStep (.error e, d) = (.error e, d) := by
  induction L with
  | nil => rfl
  | cons sec L ih => exact ih

theorem mem_sectionNames {sec : String} : sec ∈ c.sectionNames ↔ ∃ j < c.sections, sec = toString j := by
  simp [sectionNames, eq_comm]

/-- Laying out sections of plain names below a root directory makes each of them a directory,
and adds nothing else. -/
theorem foldl_layOutStep (hp : place? c.root = some p) :
    ∀ (L : List String) (d d' : FileSystem.Disk) (r : FileSystem.Disk) (u : FileSystem.Disk), (∀ sec ∈ L, Plain sec) →
      d.Sound → d.node? p = some .dir → L.foldl c.layOutStep (.ok r, d) = (.ok u, d') →
      d'.Sound ∧ d.Grows d' (fun q => ∃ sec ∈ L, q = p ++ [sec]) ∧
        ∀ sec ∈ L, d'.node? (p ++ [sec]) = some .dir := by
  intro L
  induction L with
  | nil =>
    intro d d' r u _ hs _ h
    cases h
    exact ⟨hs, Disk.Grows.refl _ _, by simp⟩
  | cons sec L ih =>
    intro d d' r u hL hs hroot h
    have hsec := hL sec List.mem_cons_self
    have hplace := sectionPath_place hp hsec
    rw [List.foldl_cons] at h
    rcases hst : c.layOutStep (.ok r, d) sec with ⟨_ | r1, d1⟩
    · rw [hst, foldl_layOutStep_error] at h
      cases h
    rw [hst] at h
    have ⟨hs1, hg1, hd1⟩ : d1.Sound ∧ d.Grows d1 (· = p ++ [sec]) ∧
        d1.node? (p ++ [sec]) = some .dir := by
      unfold layOutStep at hst
      dsimp only at hst
      split at hst
      · next hdir =>
        cases hst
        exact ⟨hs, Disk.Grows.refl _ _, Disk.node?_of_isDirAt hdir hplace⟩
      · simp only [placeOf_of_place? hplace, bind, Except.bind] at hst
        split at hst
        · next d2 hmk =>
          cases hst
          exact Disk.makeDir_grows hs (by simp) (fun s hs => (List.mem_append.1 hs).elim
            (place?_plain hp s) fun h => by rw [List.mem_singleton.1 h]; exact hsec) hmk
        · cases hst
    obtain ⟨hs', hg', hd'⟩ := ih d1 d' r1 u (fun s hs => hL s (List.mem_cons_of_mem _ hs)) hs1
      (hg1.of_some hroot) h
    refine ⟨hs', (hg1.trans hg').mono ?_, fun s hs => ?_⟩
    · rintro q (rfl | ⟨s, hs, rfl⟩)
      · exact ⟨sec, List.mem_cons_self, rfl⟩
      · exact ⟨s, List.mem_cons_of_mem _ hs, rfl⟩
    · rcases List.mem_cons.1 hs with rfl | hs
      · exact hg'.of_some hd1
      · exact hd' s hs

/-- Setting up a container at a root whose place holds no file makes the root and the
section directories, and nothing else. -/
theorem setUp_ok {s : Config.Resolved} {probe : Probe} {d d' : FileSystem.Disk} {name root : String}
    {c : Container} (hp : place? root = some p) (hs : d.Sound)
    (h : Container.setUp s probe d name root = (.ok c, d')) :
    c.name = name ∧ c.root = root ∧ c.sections = max s.sections 1 ∧ c.reclaimable.items = [] ∧
      c.archived.items = [] ∧ d'.Sound ∧ d.Grows d' (fun q => q <+: p ∨ ∃ j < c.sections, q = p ++ [toString j]) ∧
      ∀ j < c.sections, d'.node? (p ++ [toString j]) = some .dir := by
  have hroot : root.isEmpty = false := isEmpty_of_place? hp
  unfold Container.setUp at h
  simp only [Disk.makeDirsAt, hroot, Bool.false_eq_true, if_false, placeOf_of_place? hp, bind,
    Except.bind] at h
  split at h
  · cases h
  next d1 hmk =>
  obtain ⟨hs1, hg1⟩ := Disk.makeDirs_grows hs (place?_plain hp) hmk
  have hd1 : d1.node? p = some .dir := by
    obtain ⟨-, -, hnode⟩ := Disk.makeDirs_eq_ok hs (place?_plain hp) hmk
    by_cases hp0 : p = []
    · rw [hp0, Disk.node?_nil]
    rw [hnode p]
    cases hn : d.node? p with
    | none => rw [if_pos ⟨hp0, List.prefix_refl p, rfl⟩]
    | some n =>
      rw [if_neg (by simp)]
      cases n with
      | dir => rfl
      | file i => simp [Disk.makeDirs, hn, throw, throwThe, MonadExceptOf.throw] at hmk
  rcases hcap : probe.capacity root d1 with e | (_ | capacity) <;> simp only [hcap] at h
  · cases h
  · cases h
  generalize hc0 : Container.create name root s.sections _ s.reclaimQueue _ = c0 at h
  rcases hlay : c0.layOut d1 with ⟨_ | u, d2⟩ <;> simp only [hlay] at h
  · cases h
  · simp only [Prod.mk.injEq, Except.ok.injEq] at h
    obtain ⟨rfl, rfl⟩ := h
    subst hc0
    obtain ⟨hs2, hg2, hd2⟩ := foldl_layOutStep (c := Container.create name root s.sections _
      s.reclaimQueue _) hp _ d1 _ d1 u
      (fun sec hsec => by
        obtain ⟨j, -, rfl⟩ := mem_sectionNames.1 hsec
        exact plain_toString j) hs1 hd1 hlay
    refine ⟨rfl, rfl, rfl, rfl, rfl, hs2, (hg1.trans hg2).mono ?_, fun j hj => hd2 _ ?_⟩
    · rintro q (hq | ⟨sec, hsec, rfl⟩)
      · exact .inl hq
      · obtain ⟨j, hj, rfl⟩ := mem_sectionNames.1 hsec
        exact .inr ⟨j, hj, rfl⟩
    · exact mem_sectionNames.2 ⟨j, hj, rfl⟩

end ClaimStore.Container

namespace ClaimStore

open ClaimStore.Claim ClaimStore.FileSystem

/-- Setting up containers at roots with places makes each root and its sections, and nothing
else; the containers keep the names and roots, in order. -/
theorem setUpAll_ok {s : Config.Resolved} {probe : Probe} :
    ∀ {cs : List (String × String)} {d d' : FileSystem.Disk} {boxes : List Container},
      (∀ e ∈ cs, (place? e.2).isSome) → d.Sound → setUpAll s probe cs d = (.ok boxes, d') →
      boxes.map (fun c => (c.name, c.root)) = cs ∧
      (∀ c ∈ boxes, c.sections = max s.sections 1 ∧ c.reclaimable.items = [] ∧
        c.archived.items = []) ∧ d'.Sound ∧
      d.Grows d' (fun q => ∃ c ∈ boxes, ∃ p, place? c.root = some p ∧
        (q <+: p ∨ ∃ j < c.sections, q = p ++ [toString j])) ∧
      ∀ c ∈ boxes, ∀ p, place? c.root = some p → ∀ j < c.sections,
        d'.node? (p ++ [toString j]) = some .dir
  | [], d, d', boxes, _, hs, h => by
    simp only [setUpAll, Prod.mk.injEq, Except.ok.injEq] at h
    obtain ⟨rfl, rfl⟩ := h
    exact ⟨rfl, by simp, hs, Disk.Grows.refl _ _, by simp⟩
  | (name, root) :: rest, d, d', boxes, hplace, hs, h => by
    obtain ⟨p, hp⟩ := Option.isSome_iff_exists.1 (hplace _ List.mem_cons_self)
    unfold setUpAll at h
    rcases hset : Container.setUp s probe d name root with ⟨_ | c, d1⟩ <;> rw [hset] at h
    · cases h
    dsimp only at h
    obtain ⟨hname, hroot, hsec, hbin, harch, hs1, hg1, hd1⟩ := Container.setUp_ok hp hs hset
    rcases hall : setUpAll s probe rest d1 with ⟨_ | cs, d2⟩ <;> rw [hall] at h
    · cases h
    simp only [Prod.mk.injEq, Except.ok.injEq] at h
    obtain ⟨rfl, rfl⟩ := h
    obtain ⟨hmap, hboxes, hs2, hg2, hd2⟩ :=
      setUpAll_ok (fun e he => hplace e (List.mem_cons_of_mem _ he)) hs1 hall
    refine ⟨by simp [hname, hroot, hmap], ?_, hs2, (hg1.trans hg2).mono ?_, ?_⟩
    · intro x hx
      rcases List.mem_cons.1 hx with rfl | hx
      · exact ⟨hsec, hbin, harch⟩
      · exact hboxes x hx
    · rintro q (hq | ⟨x, hx, hx'⟩)
      · exact ⟨c, List.mem_cons_self, p, hroot ▸ hp, hq⟩
      · exact ⟨x, List.mem_cons_of_mem _ hx, hx'⟩
    · intro x hx p' hp' j hj
      rcases List.mem_cons.1 hx with rfl | hx
      · rw [hroot, hp] at hp'
        cases hp'
        exact hg2.of_some (hd1 j hj)
      · exact hd2 x hx p' hp' j hj

/-- The caller's world right after a repository is opened without background work, if opening
succeeds: no claims handed out and no files noted. -/
def World.launch (s : Config.Resolved) (cap : Nat) (probe : Probe) (d : FileSystem.Disk) (now : Nat) :
    Option World :=
  match Repo.launch s (Tracker.empty cap) probe false (Host.create d now) with
  | (.ok r, h) => some ⟨⟨r, h⟩, [], []⟩
  | (.error _, _) => none

theorem Repo.launch_ok {s : Config.Resolved} {t : Tracker} {probe : Probe} {h h' : Host} {r : Repo}
    (hl : Repo.launch s t probe false h = (.ok r, h')) :
    setUpAll s probe s.containers h.disk = (.ok r.containers, h'.disk) ∧ h' = { h with disk := h'.disk } ∧
      r.settings = s ∧ r.tracker = t ∧ r.ids.value = 0 ∧ r.pool.items = [] ∧ r.streams = [] ∧
      r.shutDown = false ∧ r.background = none := by
  unfold Repo.launch at hl
  rcases hset : setUpAll s probe s.containers h.disk with ⟨_ | cs, d⟩ <;> rw [hset] at hl
  · cases hl
  simp only [Prod.mk.injEq, Except.ok.injEq] at hl
  obtain ⟨rfl, rfl⟩ := hl
  exact ⟨rfl, rfl, rfl, rfl, rfl, rfl, rfl, rfl, rfl⟩

/-- Container roots none of which lies inside another, on a disk where nothing stands yet at
the live or the archive place of a claim the repository can number from the time `now` on. -/
structure Roots (cs : List (String × String)) (d : FileSystem.Disk) (now : Nat) : Prop where
  apart : ∀ e ∈ cs, ∀ e' ∈ cs, e.1 ≠ e'.1 → ∀ p p', place? e.2 = some p → place? e'.2 = some p' →
    ¬ p <+: p'
  unnumbered : ∀ e ∈ cs, ∀ p, place? e.2 = some p → ∀ sec t j, now ≤ t → 0 < j →
    d.node? (p ++ [sec, formatId t j]) = none ∧
      d.node? (p ++ [sec, Archive.dirName, formatId t j]) = none

/-- A repository opened without background work over container roots laid out apart, with no
file yet for a claim it can number, satisfies the invariant with no claims handed out and no
files noted. -/
theorem Inv.launch {s : Config.Resolved} (hs : s.Valid) {d : FileSystem.Disk} (hd : d.Sound)
    {now : Nat} (hroots : Roots s.containers d now) {cap : Nat} {probe : Probe} {W : World}
    (hW : World.launch s cap probe d now = some W) : Inv W := by
  unfold World.launch at hW
  rcases hl : Repo.launch s (Tracker.empty cap) probe false (Host.create d now) with ⟨_ | r, h⟩ <;>
    rw [hl] at hW
  · cases hW
  cases hW
  obtain ⟨hnames, hnonempty, happ⟩ := hs
  obtain ⟨hset, hhost, hsettings, htracker, hids, hpool, hstreams, hdown, hbg⟩ := Repo.launch_ok hl
  have hnow : h.now = now := by rw [hhost]; rfl
  obtain ⟨hmap, hboxes, hsound, hgrow, hsec⟩ :=
    setUpAll_ok (fun e he => place?_isSome (hnonempty e he)) hd hset
  have hmem : ∀ c ∈ r.containers, (c.name, c.root) ∈ s.containers := fun c hc => by
    rw [← hmap]
    exact List.mem_map.2 ⟨c, hc, rfl⟩
  have hlayout : Layout r.containers := by
    refine ⟨?_, fun c hc => place?_isSome (hnonempty _ (hmem c hc)), fun c hc => ?_,
      fun c hc c' hc' hne p p' hp hp' => hroots.apart _ (hmem c hc) _ (hmem c' hc') hne p p' hp hp'⟩
    · have : r.containers.map (·.name) = s.containers.map Prod.fst := by
        rw [← hmap, List.map_map]
        rfl
      rw [this]
      exact hnames
    · rw [(hboxes c hc).1]
      exact Nat.lt_of_lt_of_le Nat.zero_lt_one (Nat.le_max_right _ _)
  -- setting up made only roots and sections, so it left what lies two levels below a root
  have hdeep : ∀ c ∈ r.containers, ∀ p, place? c.root = some p → ∀ u : List String,
      2 ≤ u.length → h.disk.node? (p ++ u) = d.node? (p ++ u) := by
    intro c hc p hp u hu
    refine hgrow.of_not ?_
    rintro ⟨c', hc', p', hp', hq | ⟨j, -, hq⟩⟩
    · have := (hlayout.prefix_same hc hc' hp hp' (v := []) (by simpa using hq)).2.2
      have := this.length_le
      simp only [List.length_nil] at this
      omega
    · have := (hlayout.prefix_same hc hc' hp hp' (v := [toString j])
        ⟨[], by rw [List.append_nil, hq]⟩).2.2.length_le
      simp only [List.length_singleton] at this
      omega
  exact
    { layout := hlayout
      running := ⟨hdown, hbg⟩
      appendable := by
        rw [hsettings]
        unfold Config.appendableCeiling at happ
        omega
      sound := hsound
      sections := hsec
      files_nodup := List.nodup_nil
      files_inj := by simp
      numbered := by simp
      placed := by simp
      unused := fun c hc p hp sec t j ht hj => by
        have hfree := hroots.unnumbered _ (hmem c hc) p hp sec t j (by rw [hnow] at ht; exact ht)
          (by rw [hids] at hj; exact hj)
        exact ⟨(hdeep c hc p hp [sec, formatId t j] (by simp)).trans hfree.1,
          (hdeep c hc p hp [sec, Archive.dirName, formatId t j] (by simp)).trans hfree.2, by simp⟩
      streams_nodup := by simp [hstreams]
      writable := fun k => by
        simp [Repo.registered, hstreams, htracker, Tracker.record, Tracker.find?, Tracker.empty,
          Tracker.Record.unknown, Lifecycle.isWritable]
      stream_file := by simp [hstreams]
      pool := by simp [hpool]
      holders := fun k => by simp [hpool, Repo.registered, hstreams]
      stored := by simp
      cells := by simp
      writer := by simp
      queued := by simp [htracker, Tracker.empty, Fifo.empty]
      binned := fun b hb c hc => by
        rw [(hboxes b hb).2.1] at hc
        cases hc
      filed := fun b hb e he => by
        rw [(hboxes b hb).2.2] at he
        cases he }

/-- The worlds a caller reaches: a repository just opened without background work, with valid
settings, over roots laid out apart with no file yet for a claim it can number, then steps that
name plain claims, each step that may number a claim leaving a number to draw. -/
inductive Reachable : World → Prop
  | opened {s : Config.Resolved} {d : FileSystem.Disk} {cap : Nat} {probe : Probe} {now : Nat}
      {W : World} : s.Valid → d.Sound → Roots s.containers d now →
      World.launch s cap probe d now = some W → Reachable W
  | step {W : World} (st : Step) : Reachable W → st.PlainClaims →
      (st.numbers → W.store.repo.ids.value + 1 < 2 ^ 64) → Reachable (W.step st)

namespace Inv

variable {W : World}

/-- Every step keeps the invariant. -/
theorem step (hI : Inv W) (st : Step) (hplain : st.PlainClaims)
    (hids : st.numbers → W.store.repo.ids.value + 1 < 2 ^ 64) : Inv (W.step st) := by
  cases st with
  | create lossTolerant => exact hI.step_create (hids rfl) lossTolerant
  | write k => exact hI.step_write k
  | send k bytes => exact hI.step_writer _ (.inl ⟨bytes, rfl⟩)
  | flush k => exact hI.step_writer _ (.inr (.inl rfl))
  | close k => exact hI.step_writer _ (.inr (.inr (.inl rfl)))
  | abort k => exact hI.step_writer _ (.inr (.inr (.inr rfl)))
  | clone original lossTolerant => exact hI.step_clone (hids rfl) original lossTolerant
  | importBytes k bytes => exact hI.step_importBytes k bytes
  | importPath k source => exact hI.step_importPath k source
  | increment r => exact hI.step_increment r
  | decrement r => exact hI.step_decrement hplain
  | remove r => exact hI.step_remove hplain
  | archive r => exact hI.step_archive hplain
  | destroy => exact hI.step_destroy
  | cleanup => exact hI.step_cleanup
  | expire name => exact hI.step_expire name
  | wait ms => exact hI.step_wait ms

end Inv

theorem Reachable.inv {W : World} (h : Reachable W) : Inv W := by
  induction h with
  | opened hs hd hroots hW => exact Inv.launch hs hd hroots hW
  | step st _ hplain hids ih => exact ih.step st hplain hids

end ClaimStore
