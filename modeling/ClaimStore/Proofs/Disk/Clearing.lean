import ClaimStore.Proofs.Disk.Footprints
import ClaimStore.Proofs.Disk.Listing
import ClaimStore.Proofs.Repo.Runs
/-!
# Emptying directories and laying out sections

A purge empties each container's root and makes its section directories again. On a disk these
are two operations. Emptying a directory drops each entry it lists, a directory with everything
below it (`dropEntries`): on a sound disk every place below the directory lies below one of its
entries, so nothing below it is left (`node?_dropEntries_children`). Laying out `n` sections
makes the directories `0` to `n - 1` below it (`laySections`).

Removing a listed entry fails when the place no longer holds what the listing said, as when a
disk holds two entries for one place. A disk that holds one entry per place below a directory
(`KeyedBelow`) lists each name once and holds at each name what it lists
(`KeyedBelow.node?_of_children`), so every removal finds its entry. Emptying a directory makes
a disk keyed below it, and laying out sections keeps it so.

`Reset L d d'` says what both operations leave of `d` for the directories `p` with `n`
sections that `L` lists: below each `p` exactly its sections, one entry per place, and
elsewhere what `d` held. Each operation takes one more directory into it (`Reset.empty`,
`Reset.lay`), and resetting a disk that is already reset over the same directories leaves the
same tree (`Reset.same`).
-/

set_option autoImplicit false

namespace ClaimStore.FileSystem

/-- The place `q` lies strictly below `p`. -/
def Below (p q : Place) : Prop := p <+: q ∧ p.length < q.length

instance (p q : Place) : Decidable (Below p q) :=
  decidable_of_iff (p.isPrefixOf q && p.length < q.length)
    (by simp [Below, List.isPrefixOf_iff_prefix])

theorem below_append (p : Place) {q : Place} (hq : q ≠ []) : Below p (p ++ q) :=
  ⟨List.prefix_append p q, by simp [List.length_pos_iff.2 hq]⟩

theorem Below.exists_cons {p q : Place} (h : Below p q) : ∃ x rest, q = p ++ x :: rest := by
  obtain ⟨⟨t, rfl⟩, hlen⟩ := h
  cases t with
  | nil => simp at hlen
  | cons x rest => exact ⟨x, rest, rfl⟩

theorem Below.of_entry {p q : Place} {x : String} (h : p ++ [x] <+: q) : Below p q :=
  ⟨(List.prefix_append p [x]).trans h, by have := h.length_le; simp at this; omega⟩

namespace Disk

variable {d d' d'' : Disk} {p q : Place}

/-! ## Removing entries -/

theorem removeTree_eq_drop (h : d.removeTree p = .ok d') : d' = d.drop p := by
  unfold removeTree at h
  cases hl : d.lookup p with
  | error e => simp [hl, bind, Except.bind] at h
  | ok o =>
    rw [hl] at h
    rcases o with _ | _ | i <;> simp [bind, Except.bind, throw, throwThe, MonadExceptOf.throw,
      pure, Except.pure] at h
    exact h.symm

theorem removeTree_of_dir (hs : d.Sound) (hp : d.node? p = some .dir) :
    d.removeTree p = .ok (d.drop p) := by
  simp [removeTree, lookup, hs.reach hp, hp, bind, Except.bind, pure, Except.pure]

theorem readDir_of_dir (hs : d.Sound) (hp : d.node? p = some .dir) :
    d.readDir p = .ok (d.children p) := by
  simp [readDir, lookup, hs.reach hp, hp, bind, Except.bind, pure, Except.pure]

/-- Drops the entries named `names` of the directory `p`, each with what lies below it. -/
def dropEntries (d : Disk) (p : Place) (names : List String) : Disk :=
  names.foldl (fun d x => d.drop (p ++ [x])) d

theorem dropEntries_concat (d : Disk) (p : Place) (names : List String) (x : String) :
    d.dropEntries p (names ++ [x]) = (d.dropEntries p names).drop (p ++ [x]) := by
  simp [dropEntries]

theorem inodes_dropEntries (d : Disk) (p : Place) (names : List String) :
    (d.dropEntries p names).inodes = d.inodes := by
  induction names generalizing d with
  | nil => rfl
  | cons x names ih => exact ih (d.drop (p ++ [x]))

theorem Sound.dropEntries (hs : d.Sound) (p : Place) (names : List String) :
    (d.dropEntries p names).Sound := by
  induction names generalizing d with
  | nil => exact hs
  | cons x names ih => exact ih (hs.drop (p ++ [x]))

theorem node?_dropEntries (d : Disk) (p : Place) (names : List String) (q : Place) :
    (d.dropEntries p names).node? q = if ∃ x ∈ names, p ++ [x] <+: q then none else d.node? q := by
  induction names generalizing d with
  | nil => simp [dropEntries]
  | cons x names ih =>
    change (dropEntries (d.drop (p ++ [x])) p names).node? q = _
    rw [ih, node?_drop]
    by_cases hx : p ++ [x] <+: q
    · have hq : q ≠ [] := by rintro rfl; simpa using hx.length_le
      simp [hx, hq]
    · simp [hx]

/-- On a sound disk, dropping every entry a directory lists leaves nothing below it and
everything else as it was. -/
theorem node?_dropEntries_children (hs : d.Sound) (p q : Place) :
    (d.dropEntries p ((d.children p).map Prod.fst)).node? q =
      if Below p q then none else d.node? q := by
  rw [node?_dropEntries]
  by_cases hq : Below p q
  · rw [if_pos hq]
    obtain ⟨x, rest, rfl⟩ := hq.exists_cons
    cases hn : d.node? (p ++ x :: rest) with
    | none => split <;> rfl
    | some m =>
      -- whatever lies below `p` lies at or below an entry of `p`, which the listing names
      obtain ⟨m', hx⟩ : ∃ m', d.node? (p ++ [x]) = some m' := by
        cases rest with
        | nil => exact ⟨m, hn⟩
        | cons y rest =>
          refine ⟨.dir, ?_⟩
          have := hs.above _ m hn (p.length + 1) (by simp)
          simpa [List.take_append, List.take_of_length_le] using this
      refine if_pos ⟨x, List.mem_map.2 ⟨(x, m'), children_of_node? hx, rfl⟩, ?_⟩
      exact ⟨rest, by simp⟩
  · rw [if_neg hq, if_neg]
    rintro ⟨x, -, hx⟩
    exact hq (Below.of_entry hx)

/-! ## One entry per place below a directory -/

/-- The entries of the places strictly below `p`. -/
def entriesBelow (d : Disk) (p : Place) : List (Place × Node) :=
  d.nodes.filter fun e => p.isPrefixOf e.1 && p.length < e.1.length

/-- Below `p` the disk holds one entry per place. -/
def KeyedBelow (d : Disk) (p : Place) : Prop := ((d.entriesBelow p).map Prod.fst).Nodup

theorem mem_entriesBelow {e : Place × Node} : e ∈ d.entriesBelow p ↔ e ∈ d.nodes ∧ Below p e.1 := by
  simp [entriesBelow, Below, List.isPrefixOf_iff_prefix]

theorem KeyedBelow.of_sublist (hk : d.KeyedBelow p) (h : d'.nodes.Sublist d.nodes) :
    d'.KeyedBelow p :=
  hk.sublist ((h.filter _).map Prod.fst)

theorem KeyedBelow.drop (hk : d.KeyedBelow p) (r : Place) : (d.drop r).KeyedBelow p :=
  hk.of_sublist List.filter_sublist

theorem KeyedBelow.dropEntries (hk : d.KeyedBelow p) (r : Place) (names : List String) :
    (d.dropEntries r names).KeyedBelow p := by
  induction names generalizing d with
  | nil => exact hk
  | cons x names ih => exact ih (hk.drop _)

theorem KeyedBelow.set (hk : d.KeyedBelow p) (r : Place) (n : Node) : (d.set r n).KeyedBelow p := by
  have hrest : (((d.nodes.filter (·.1 != r)).filter fun e =>
      p.isPrefixOf e.1 && p.length < e.1.length).map Prod.fst).Nodup :=
    hk.sublist ((List.filter_sublist.filter _).map Prod.fst)
  simp only [KeyedBelow, entriesBelow, Disk.set, List.filter_append, List.map_append]
  refine List.nodup_append.2 ⟨hrest, ?_, ?_⟩
  · exact (List.nodup_singleton (r, n)).sublist List.filter_sublist |>.map_on
      (fun a ha b hb _ => by rw [List.mem_singleton.1 (List.filter_sublist.subset ha),
        List.mem_singleton.1 (List.filter_sublist.subset hb)])
  · intro a ha b hb hab
    obtain ⟨e, he, rfl⟩ := List.mem_map.1 ha
    obtain ⟨e', he', rfl⟩ := List.mem_map.1 hb
    have hr : e'.1 = r := by
      rw [List.mem_singleton.1 (List.filter_sublist.subset he')]
    have hne := (List.mem_filter.1 (List.mem_filter.1 he).1).2
    simp only [bne_iff_ne, ne_eq] at hne
    exact hne (hab.trans hr)

theorem keyedBelow_of_none (h : ∀ q, Below p q → d.node? q = none) : d.KeyedBelow p := by
  have hnil : d.entriesBelow p = [] := by
    refine List.eq_nil_iff_forall_not_mem.2 fun e he => ?_
    obtain ⟨he, hbelow⟩ := mem_entriesBelow.1 he
    have hq : e.1 ≠ [] := by rintro h; simpa [h] using hbelow.2
    have hsome : (d.nodes.find? (·.1 == e.1)).isSome := List.find?_isSome.2 ⟨e, he, by simp⟩
    rw [← Option.isSome_map (f := (·.2)), ← node?_of_ne_nil _ hq, h e.1 hbelow] at hsome
    cases hsome
  simp [KeyedBelow, hnil]

/-- The part of a disk strictly below `p`, on the same inodes. -/
def restrictBelow (d : Disk) (p : Place) : Disk := ⟨d.entriesBelow p, d.inodes⟩

theorem KeyedBelow.keyed (hk : d.KeyedBelow p) : (d.restrictBelow p).Keyed := hk

theorem children_restrictBelow (d : Disk) (p : Place) :
    (d.restrictBelow p).children p = d.children p := by
  simp only [children, restrictBelow, entriesBelow, List.filterMap_filter]
  congr 1
  refine List.filterMap_congr fun ⟨q, n⟩ _ => ?_
  by_cases hq : q.length = p.length + 1 && p.isPrefixOf q
  · have : (p.isPrefixOf q && decide (p.length < q.length)) = true := by
      simp only [Bool.and_eq_true, decide_eq_true_eq] at hq ⊢
      exact ⟨hq.2, by omega⟩
    simp [this]
  · simp only [Bool.not_eq_true] at hq
    simp [hq]

theorem node?_restrictBelow (h : Below p q) : (d.restrictBelow p).node? q = d.node? q := by
  have hq : q ≠ [] := by rintro rfl; simpa using h.2
  rw [node?_of_ne_nil _ hq, node?_of_ne_nil _ hq]
  simp only [restrictBelow, entriesBelow, List.find?_filter]
  congr 2
  funext e
  by_cases he : e.1 = q
  · obtain ⟨hpre, hlen⟩ := h
    simp [he, List.isPrefixOf_iff_prefix.2 hpre, hlen]
  · simp [he]

theorem KeyedBelow.children_names (hk : d.KeyedBelow p) : ((d.children p).map Prod.fst).Nodup := by
  rw [← children_restrictBelow]
  exact hk.keyed.children_names p

theorem KeyedBelow.node?_of_children (hk : d.KeyedBelow p) {x : String} {n : Node}
    (h : (x, n) ∈ d.children p) : d.node? (p ++ [x]) = some n := by
  rw [← children_restrictBelow, hk.keyed.mem_children] at h
  rwa [node?_restrictBelow (below_append p (by simp))] at h

/-! ## Making directories -/

theorem makeDirsAt_of_dir {t : String} (ht : place? t = some p) (hp : d.node? p = some .dir) :
    d.makeDirsAt t = .ok d := by
  simp [makeDirsAt, isEmpty_of_place? ht, placeOf_of_place? ht, makeDirs, hp, bind, Except.bind]
  rfl

theorem makeDir_of_none (hr : d.reach p = .ok ()) (hn : d.node? p = none) :
    d.makeDir p = .ok (d.set p .dir) := by
  simp [makeDir, lookup_eq_ok.2 ⟨hr, hn.symm⟩, bind, Except.bind]
  rfl

/-! ## Laying out sections -/

/-- Makes the section directories `0` to `n - 1` below `p`. -/
def laySections (d : Disk) (p : Place) (n : Nat) : Disk :=
  (List.range n).foldl (fun d j => d.set (p ++ [toString j]) .dir) d

theorem laySections_succ (d : Disk) (p : Place) (n : Nat) :
    d.laySections p (n + 1) = (d.laySections p n).set (p ++ [toString n]) .dir := by
  simp [laySections, List.range_succ]

theorem inodes_laySections (d : Disk) (p : Place) (n : Nat) :
    (d.laySections p n).inodes = d.inodes := by
  induction n with
  | zero => rfl
  | succ n ih => rw [laySections_succ]; exact ih

theorem node?_laySections (d : Disk) (p : Place) (n : Nat) (q : Place) :
    (d.laySections p n).node? q = if ∃ j < n, q = p ++ [toString j] then some .dir else d.node? q := by
  induction n with
  | zero => simp [laySections]
  | succ n ih =>
    rw [laySections_succ, node?_set, ih]
    by_cases hn : q = p ++ [toString n]
    · rw [if_pos ⟨hn, by simp [hn]⟩, if_pos ⟨n, by omega, hn⟩]
    · have hiff : (∃ j < n + 1, q = p ++ [toString j]) ↔ ∃ j < n, q = p ++ [toString j] := by
        refine ⟨fun ⟨j, hj, hq⟩ => ⟨j, ?_, hq⟩, fun ⟨j, hj, hq⟩ => ⟨j, by omega, hq⟩⟩
        rcases Nat.lt_succ_iff_lt_or_eq.1 hj with hj | rfl
        · exact hj
        · exact absurd hq hn
      simp only [hn, false_and, if_false, hiff]

theorem node?_laySections_self (d : Disk) (p : Place) (n : Nat) :
    (d.laySections p n).node? p = d.node? p := by
  rw [node?_laySections, if_neg]
  rintro ⟨j, -, hj⟩
  simpa using congrArg List.length hj

theorem node?_laySections_next (d : Disk) (p : Place) (n : Nat) :
    (d.laySections p n).node? (p ++ [toString n]) = d.node? (p ++ [toString n]) := by
  rw [node?_laySections, if_neg]
  rintro ⟨j, hj, hjn⟩
  have := Path.toString_inj (List.append_cancel_left hjn |> List.singleton_inj.1)
  omega

theorem KeyedBelow.laySections (hk : d.KeyedBelow p) (r : Place) (n : Nat) :
    (d.laySections r n).KeyedBelow p := by
  induction n with
  | zero => exact hk
  | succ n ih => rw [laySections_succ]; exact ih.set _ _

theorem Sound.laySections (hs : d.Sound) (hp : d.node? p = some .dir)
    (hplain : ∀ s ∈ p, Path.Plain s) (hnone : ∀ j : Nat, d.node? (p ++ [toString j]) = none)
    (n : Nat) :
    (d.laySections p n).Sound := by
  induction n with
  | zero => exact hs
  | succ n ih =>
    rw [laySections_succ]
    have hp' : (d.laySections p n).node? p = some .dir := by rw [node?_laySections_self, hp]
    refine ih.set (by simp) (ih.above_append hp' _) (fun s hs => ?_) ?_ .dir
    · rcases List.mem_append.1 hs with hs | hs
      · exact hplain s hs
      · rw [List.mem_singleton.1 hs]
        exact Path.plain_toString n
    · rw [node?_laySections_next, hnone]

/-! ## Directories reset -/

/-- What emptying the directories `L` lists and laying out their sections leaves of `d`: below
each directory `p` with `n` sections exactly the directories `0` to `n - 1`, one entry per
place, and elsewhere what `d` held, on the same inodes. -/
structure Reset (L : List (Place × Nat)) (d d' : Disk) : Prop where
  inodes : d'.inodes = d.inodes
  sound : d'.Sound
  keyed : ∀ e ∈ L, d'.KeyedBelow e.1
  below : ∀ e ∈ L, ∀ q, Below e.1 q →
    d'.node? q = if ∃ j < e.2, q = e.1 ++ [toString j] then some .dir else none
  outside : ∀ q, (∀ e ∈ L, ¬ Below e.1 q) → d'.node? q = d.node? q

namespace Reset

variable {L : List (Place × Nat)}

theorem refl (hs : d.Sound) : Reset [] d d :=
  ⟨rfl, hs, by simp, by simp, fun _ _ => rfl⟩

theorem congr {L' : List (Place × Nat)} (h : Reset L d d') (hL : ∀ e, e ∈ L ↔ e ∈ L') :
    Reset L' d d' where
  inodes := h.inodes
  sound := h.sound
  keyed e he := h.keyed e ((hL e).2 he)
  below e he := h.below e ((hL e).2 he)
  outside q hq := h.outside q fun e he => hq e ((hL e).1 he)

theorem node?_of_apart (h : Reset L d d') (hp : ∀ e ∈ L, ¬ e.1 <+: p ∨ e.1 = p) :
    d'.node? p = d.node? p :=
  h.outside p fun e he hb => (hp e he).elim (fun h' => h' hb.1) fun h' => by
    have := hb.2
    rw [h'] at this
    omega

theorem node?_self {n : Nat} (h : Reset ((p, n) :: L) d d') (hfree : ∀ e ∈ L, ¬ e.1 <+: p) :
    d'.node? p = d.node? p :=
  h.node?_of_apart fun e he => by
    rcases List.mem_cons.1 he with rfl | he
    · exact .inr rfl
    · exact .inl (hfree e he)

/-- Emptying one more directory, at or above none of those already reset. -/
theorem empty (h : Reset L d d') (hfree : ∀ e ∈ L, ¬ p <+: e.1) :
    Reset ((p, 0) :: L) d (d'.dropEntries p ((d'.children p).map Prod.fst)) where
  inodes := (inodes_dropEntries _ _ _).trans h.inodes
  sound := h.sound.dropEntries _ _
  keyed e he := by
    rcases List.mem_cons.1 he with rfl | he
    · exact keyedBelow_of_none fun q hq => by
        rw [node?_dropEntries_children h.sound, if_pos hq]
    · exact (h.keyed e he).dropEntries _ _
  below e he q hq := by
    rw [node?_dropEntries_children h.sound]
    rcases List.mem_cons.1 he with rfl | he
    · simp [hq]
    split
    · -- below both: the new directory lies strictly below the old one, deeper than its sections
      rename_i hpq
      have hlen : e.1.length < p.length := by
        by_contra hle
        exact hfree e he (List.prefix_of_prefix_length_le hpq.1 hq.1 (by omega))
      rw [if_neg]
      rintro ⟨j, -, rfl⟩
      have := hpq.2
      simp only [List.length_append, List.length_singleton] at this
      omega
    · exact h.below e he q hq
  outside q hq := by
    rw [node?_dropEntries_children h.sound, if_neg (hq (p, 0) List.mem_cons_self)]
    exact h.outside q fun e he => hq e (List.mem_cons_of_mem _ he)

/-- Laying out the sections of a directory just emptied, apart from every other directory
reset. -/
theorem lay (h : Reset ((p, 0) :: L) d d') (hp : d'.node? p = some .dir)
    (hplain : ∀ s ∈ p, Path.Plain s) (hfree : ∀ e ∈ L, ¬ e.1 <+: p ∧ ¬ p <+: e.1) (n : Nat) :
    Reset ((p, n) :: L) d (d'.laySections p n) where
  inodes := (inodes_laySections _ _ _).trans h.inodes
  sound := h.sound.laySections hp hplain (fun j => by
    rw [h.below (p, 0) List.mem_cons_self _ (below_append p (by simp))]
    simp) n
  keyed e he := by
    rcases List.mem_cons.1 he with rfl | he
    · exact (h.keyed (p, 0) List.mem_cons_self).laySections _ _
    · exact (h.keyed e (List.mem_cons_of_mem _ he)).laySections _ _
  below e he q hq := by
    rw [node?_laySections]
    rcases List.mem_cons.1 he with rfl | he
    · rw [h.below (p, 0) List.mem_cons_self q hq]
      simp
    · rw [if_neg, h.below e (List.mem_cons_of_mem _ he) q hq]
      rintro ⟨j, -, rfl⟩
      -- a section of `p` below another directory would put that directory at or above `p`
      have hlen : e.1.length ≤ p.length := by
        have := hq.2
        simp only [List.length_append, List.length_singleton] at this
        omega
      exact (hfree e he).1 (List.prefix_of_prefix_length_le hq.1 (List.prefix_append p _) hlen)
  outside q hq := by
    rw [node?_laySections, if_neg]
    · exact h.outside q fun e he => by
        rcases List.mem_cons.1 he with rfl | he
        · exact hq (p, n) List.mem_cons_self
        · exact hq e (List.mem_cons_of_mem _ he)
    · rintro ⟨j, -, rfl⟩
      exact hq (p, n) List.mem_cons_self (below_append p (by simp))

theorem same (h : Reset L d d') (h' : Reset L d' d'') : d''.Same d' := by
  refine ⟨fun q _ => ?_, h'.inodes⟩
  by_cases hq : ∃ e ∈ L, Below e.1 q
  · obtain ⟨e, he, hb⟩ := hq
    rw [h'.below e he q hb, h.below e he q hb]
  · simp only [not_exists, not_and] at hq
    exact h'.outside q hq

end Reset

end Disk

end ClaimStore.FileSystem
