import ClaimStore.Proofs.Expiry.Eviction
/-!
# Listing directories

A keyed disk holds one entry per place, as a file system does. On such a disk a directory lists
each name once, in increasing order of names, and lists exactly what the places one name below
it hold; making directories, unlinking and moving keep a disk keyed.

A container lists its claims from two levels of such listings: the directories below its root,
then the files in each. On a sound keyed disk its list is therefore sorted by section and id, and
is fixed by which live places hold files.
-/

set_option autoImplicit false

namespace ClaimStore

open ClaimStore.Claim ClaimStore.FileSystem

namespace FileSystem.Disk


variable {d d' : Disk} {p : Place}

/-! ## Keyed disks stay keyed -/

theorem Keyed.drop (hk : d.Keyed) (p : Place) : (d.drop p).Keyed :=
  hk.of_sublist List.filter_sublist

theorem Keyed.set (hk : d.Keyed) (p : Place) (n : Node) : (d.set p n).Keyed := by
  have hrest : ((d.nodes.filter (·.1 != p)).map Prod.fst).Nodup :=
    hk.sublist (List.filter_sublist.map Prod.fst)
  simp only [Keyed, Disk.set, List.map_append, List.map_cons, List.map_nil]
  refine List.nodup_append.2 ⟨hrest, List.nodup_singleton p, ?_⟩
  intro a ha b hb
  obtain ⟨e, he, rfl⟩ := List.mem_map.1 ha
  rw [List.mem_singleton.1 hb]
  simpa using (List.mem_filter.1 he).2

theorem Keyed.foldl_set_dir (hk : d.Keyed) (p : Place) (L : List Nat) :
    (L.foldl (fun d n => d.set (p.take n) .dir) d).Keyed := by
  induction L generalizing d with
  | nil => exact hk
  | cons n L ih => exact ih (hk.set _ _)

theorem Keyed.makeDirs (hk : d.Keyed) (h : d.makeDirs p = .ok d') : d'.Keyed := by
  unfold Disk.makeDirs at h
  split at h
  · cases h
    exact hk
  · cases h
  · dsimp only at h
    split at h
    · cases h
    · cases h
      exact hk.foldl_set_dir p _

/-- A successful move leaves the disk as it was, or drops what lies at and below the source and
the target, and lists what lay at and below the source again below the target. -/
theorem rename_nodes {src dst : Place} (h : d.rename src dst = .ok d') :
    d' = d ∨ d'.nodes = ((d.drop src).drop dst).nodes ++
      (d.nodes.filter fun e => src.isPrefixOf e.1).map fun e => (dst ++ e.1.drop src.length, e.2) := by
  unfold rename at h
  cases hrs : d.reach src with
  | error e => simp [hrs, bind, Except.bind] at h
  | ok u =>
  cases hrd : d.reach dst with
  | error e => simp [hrs, hrd, bind, Except.bind] at h
  | ok v =>
  simp only [hrs, hrd, bind, Except.bind] at h
  cases hn : d.node? src with
  | none => simp [hn, throw, throwThe, MonadExceptOf.throw] at h
  | some n =>
  simp only [hn] at h
  by_cases hsd : src = dst
  · simp only [hsd, if_true, pure, Except.pure, Except.ok.injEq] at h
    exact .inl h.symm
  rw [if_neg hsd] at h
  split at h
  · simp [throw, throwThe, MonadExceptOf.throw] at h
  right
  rcases n with _ | i <;> rcases hdn : d.node? dst with _ | _ | j <;>
    simp [hdn, throw, throwThe, MonadExceptOf.throw, pure, Except.pure] at h
  case dir.some.dir =>
    split at h
    · rw [← Except.ok.inj h]
    · cases h
  all_goals rw [← h]

theorem Keyed.rename (hk : d.Keyed) {src dst : Place} (h : d.rename src dst = .ok d') : d'.Keyed := by
  rcases rename_nodes h with rfl | hn
  · exact hk
  have hmoved : (d.nodes.filter fun e => src.isPrefixOf e.1).Nodup :=
    (hk.sublist (List.filter_sublist.map Prod.fst)).of_map _
  unfold Keyed
  rw [hn, List.map_append, List.nodup_append]
  refine ⟨(hk.drop src).drop dst, ?_, ?_⟩
  · -- a place below the target comes from one place below the source
    rw [List.map_map]
    refine hmoved.map_on fun e he e' he' heq => ?_
    obtain ⟨t, ht⟩ := List.isPrefixOf_iff_prefix.1 (List.mem_filter.1 he).2
    obtain ⟨t', ht'⟩ := List.isPrefixOf_iff_prefix.1 (List.mem_filter.1 he').2
    have htt : t = t' := by simpa [← ht, ← ht'] using heq
    have hplace : e.1 = e'.1 := by rw [← ht, ← ht', htt]
    exact List.inj_on_of_nodup_map hk (List.mem_filter.1 he).1 (List.mem_filter.1 he').1 hplace
  · -- what stays lies outside the target, what moved below it
    intro a ha b hb heq
    obtain ⟨e, he, rfl⟩ := List.mem_map.1 ha
    obtain ⟨e', he', rfl⟩ := List.mem_map.1 hb
    obtain ⟨e'', -, rfl⟩ := List.mem_map.1 he'
    have hpre : dst <+: e.1 := by
      rw [heq]
      exact List.prefix_append _ _
    simp only [Disk.drop, List.mem_filter, Bool.not_eq_true'] at he
    simp [List.isPrefixOf_iff_prefix.2 hpre] at he

/-! ## What a directory lists -/

theorem Keyed.mem_children (hk : d.Keyed) {n : String} {m : Node} :
    (n, m) ∈ d.children p ↔ d.node? (p ++ [n]) = some m :=
  ⟨fun h => hk.node?_of_mem (by simp) (mem_nodes_of_children h), children_of_node?⟩

theorem Keyed.children_sorted (hk : d.Keyed) (p : Place) :
    (d.children p).Pairwise fun a b => a.1 < b.1 := by
  have hle : (d.children p).Pairwise fun a b => decide (a.1 ≤ b.1) = true := by
    unfold children
    exact List.pairwise_mergeSort
      (fun a b c hab hbc => by simp only [decide_eq_true_eq] at *; exact String.le_trans hab hbc)
      (fun a b => by simpa using String.le_total a.1 b.1) _
  have hne : (d.children p).Pairwise fun a b => a.1 ≠ b.1 :=
    List.pairwise_map.1 (hk.children_names p)
  refine (hle.and hne).imp fun ⟨hab, hne⟩ => ?_
  exact String.not_le.1 fun hba => hne (String.le_antisymm (of_decide_eq_true hab) hba)

theorem Sound.section_dir (hs : d.Sound) {r : Resource} {n : Node}
    (h : d.node? (livePlace p r) = some n) : d.node? (p ++ [r.sectionName]) = some .dir := by
  have := hs.above _ _ h (p.length + 1) (by simp [livePlace])
  rwa [livePlace, List.take_append, List.take_of_length_le (by omega), Nat.add_sub_cancel_left]
    at this

theorem forM_append_error {α ε : Type} (l₁ l₂ : List α) (f : α → Except ε Unit) {x : α} {e : ε}
    (h₁ : ∀ y ∈ l₁, f y = .ok ()) (hx : f x = .error e) : (l₁ ++ x :: l₂).forM f = .error e := by
  induction l₁ with
  | nil =>
    change (f x >>= fun _ => l₂.forM f) = _
    rw [hx]
    rfl
  | cons a l ih =>
    change (f a >>= fun _ => (l ++ x :: l₂).forM f) = _
    rw [h₁ a List.mem_cons_self]
    exact ih fun y hy => h₁ y (List.mem_cons_of_mem _ hy)

theorem reach_of_missing {m : Nat} (hm0 : 0 < m) (hm : m < p.length)
    (hdirs : ∀ k, 0 < k → k < m → d.node? (p.take k) = some .dir)
    (hnone : d.node? (p.take m) = none) : d.reach p = .error .notFound := by
  -- the places on the way are checked in order: those above the missing one, then it
  have hsplit : (List.range p.length).drop 1 =
      List.range' 1 (m - 1) ++ m :: List.range' (m + 1) (p.length - m - 1) := by
    rw [List.range_eq_range', List.drop_range']
    obtain ⟨j, hj⟩ : ∃ j, p.length = m + 1 + j := ⟨p.length - m - 1, by omega⟩
    obtain ⟨i, rfl⟩ : ∃ i, m = i + 1 := ⟨m - 1, by omega⟩
    rw [hj, show i + 1 + 1 + j - 1 = i + (j + 1) by omega, ← List.range'_append,
      show i + 1 + 1 + j - (i + 1) - 1 = j by omega, List.range'_succ]
    simp only [Nat.zero_add, Nat.one_mul, Nat.add_sub_cancel]
    rw [Nat.add_comm 1 i]
  unfold reach
  rw [hsplit]
  refine forM_append_error _ _ _ (fun k hk => ?_) (by rw [hnone]; rfl)
  rw [List.mem_range'_1] at hk
  rw [hdirs k (by omega) (by omega)]
  rfl

end FileSystem.Disk

/-! ## What a container lists -/

namespace Claim.Resource

/-- One claim comes before another in a container's listing: by section, then by id. -/
def Precedes (a b : Resource) : Prop :=
  a.sectionName < b.sectionName ∨ a.sectionName = b.sectionName ∧ a.id < b.id

theorem Precedes.asymm {a b : Resource} (h : a.Precedes b) : ¬ b.Precedes a := by
  rcases h with h | ⟨he, h⟩ <;> rintro (h' | ⟨he', h'⟩)
  · exact String.lt_asymm h h'
  · exact String.lt_irrefl _ (he' ▸ h)
  · exact String.lt_irrefl _ (he ▸ h')
  · exact String.lt_asymm h h'

theorem Precedes.ne {a b : Resource} (h : a.Precedes b) : a ≠ b := by
  rintro rfl
  exact h.asymm h

end Claim.Resource

namespace Container

variable {b b' : Container} {d d' : Disk} {p : Place}

/-- The claims a container lists from its section directory `dir` below its root `root`: the
regular files there not named like the archive directory, in order of names. -/
def sectionClaims (b : Container) (d : Disk) (root : Place) (dir : String) : List Resource :=
  (d.children (root ++ [dir])).filterMap fun e =>
    match e.2 with
    | .file _ => if e.1 == Archive.dirName then none else some ⟨b.name, dir, e.1, false⟩
    | .dir => none

theorem liveClaims_eq (hp : place? b.root = some p) (d : Disk) :
    b.liveClaims d = (d.children p).flatMap fun e =>
      match e.2 with
      | .file _ => []
      | .dir => b.sectionClaims d p e.1 := by
  simp only [liveClaims, hp]
  rfl

theorem liveClaims_congr (hname : b'.name = b.name) (hroot : b'.root = b.root) (d : Disk) :
    b'.liveClaims d = b.liveClaims d := by
  simp only [liveClaims, hname, hroot]

theorem mem_sectionClaims (hk : d.Keyed) {root : Place} {dir : String} {c : Resource} :
    c ∈ b.sectionClaims d root dir ↔ c.container = b.name ∧ c.sectionName = dir ∧
      c.lossTolerant = false ∧ c.id ≠ Archive.dirName ∧ ∃ i, d.node? (root ++ [dir, c.id]) = some (.file i) := by
  unfold sectionClaims
  rw [List.mem_filterMap]
  constructor
  · rintro ⟨⟨name, m⟩, hname, he⟩
    cases m with
    | dir => cases he
    | file i =>
      dsimp only at he
      split at he
      · cases he
      · rename_i harch
        cases he
        exact ⟨rfl, rfl, rfl, by simpa using harch, i, by simpa using hk.mem_children.1 hname⟩
  · rintro ⟨hcont, rfl, hloss, hid, i, hi⟩
    refine ⟨(c.id, .file i), hk.mem_children.2 (by simpa using hi), ?_⟩
    obtain ⟨cont, sec, id, loss⟩ := c
    simp only at hcont hloss hid
    simp [hid, hcont, hloss]

theorem sectionClaims_sorted (hk : d.Keyed) (root : Place) (dir : String) :
    (b.sectionClaims d root dir).Pairwise Resource.Precedes := by
  refine (hk.children_sorted _).filterMap _ fun a a' hlt c hc c' hc' => ?_
  obtain ⟨name, m⟩ := a
  obtain ⟨name', m'⟩ := a'
  cases m <;> cases m' <;> simp only [Option.ite_none_left_eq_some, Option.some.injEq,
    reduceCtorEq] at hc hc'
  obtain ⟨-, rfl⟩ := hc
  obtain ⟨-, rfl⟩ := hc'
  exact .inr ⟨rfl, hlt⟩

theorem mem_liveClaims (hs : d.Sound) (hk : d.Keyed) (hp : place? b.root = some p) {c : Resource} :
    c ∈ b.liveClaims d ↔ c.container = b.name ∧ c.lossTolerant = false ∧ c.id ≠ Archive.dirName ∧
      ∃ i, d.node? (livePlace p c) = some (.file i) := by
  rw [liveClaims_eq hp, List.mem_flatMap]
  constructor
  · rintro ⟨⟨dir, n⟩, -, hc⟩
    cases n with
    | file => cases hc
    | dir =>
      obtain ⟨hcont, rfl, hloss, hid, hi⟩ := (mem_sectionClaims hk).1 hc
      exact ⟨hcont, hloss, hid, by simpa [livePlace] using hi⟩
  · rintro ⟨hcont, hloss, hid, i, hi⟩
    exact ⟨(c.sectionName, .dir), hk.mem_children.2 (hs.section_dir hi),
      (mem_sectionClaims hk).2 ⟨hcont, rfl, hloss, hid, i, by simpa [livePlace] using hi⟩⟩

theorem liveClaims_sorted (hk : d.Keyed) : (b.liveClaims d).Pairwise Resource.Precedes := by
  cases hp : place? b.root with
  | none => simp [liveClaims, hp]
  | some p =>
    rw [liveClaims_eq hp]
    -- each section lists its files in order, and the sections come in order of their names
    refine List.pairwise_flatMap.2 ⟨fun ⟨dir, n⟩ _ => ?_, (hk.children_sorted p).imp ?_⟩
    · cases n with
      | dir => exact sectionClaims_sorted hk p dir
      | file => exact List.Pairwise.nil
    · rintro ⟨dir, n⟩ ⟨dir', n'⟩ hlt c hc c' hc'
      cases n <;> cases n'
      case dir.dir =>
        obtain ⟨-, hsec, -⟩ := (mem_sectionClaims hk).1 hc
        obtain ⟨-, hsec', -⟩ := (mem_sectionClaims hk).1 hc'
        exact .inl (by rw [hsec, hsec']; exact hlt)
      all_goals simp at hc hc'

theorem liveClaims_eq_filter (hk : d.Keyed) (hk' : d'.Keyed) (P : Resource → Bool)
    (h : ∀ c, c ∈ b.liveClaims d' ↔ c ∈ b.liveClaims d ∧ P c = true) :
    b.liveClaims d' = (b.liveClaims d).filter P := by
  have hs' := liveClaims_sorted (b := b) hk'
  have hs := (liveClaims_sorted (b := b) hk).filter P
  refine List.Perm.eq_of_pairwise (fun _ _ _ _ hac hca => absurd hca hac.asymm) hs' hs ?_
  refine (List.perm_ext_iff_of_nodup (hs'.imp Resource.Precedes.ne)
    (hs.imp Resource.Precedes.ne)).2 fun c => ?_
  rw [h, List.mem_filter]

end Container

end ClaimStore
