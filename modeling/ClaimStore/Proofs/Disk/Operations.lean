import ClaimStore.Proofs.Places
/-!
# Operations on a sound disk

A disk is sound when it is shaped like a file system: every place above an entry is a
directory, and places are made of plain names. The operations of the repository keep disks
sound, and on a sound disk each says simply which places it changes:

* `removeFile_eq_ok`: unlinking a file takes away that file only;
* `rename_file`: moving a file puts it at the new place and takes it from the old one;
* `makeDirs_eq_ok`: making directories adds directories at the missing places on the way;
* `openWrite_of_none`: opening a missing file makes it, on a new inode.

The inodes (file contents) change only by `store`, `append` and `allocate`.
-/

set_option autoImplicit false

namespace ClaimStore

theorem find?_filter_key_ne {α β : Type} [BEq α] [LawfulBEq α] (l : List (α × β)) {k k' : α}
    (h : k' ≠ k) : (l.filter (·.1 != k)).find? (·.1 == k') = l.find? (·.1 == k') := by
  rw [List.find?_filter]
  congr 1
  funext e
  by_cases he : e.1 = k' <;> simp [he, h]

namespace FileSystem

namespace Disk

variable {d d' : Disk} {p q : Place}

theorem node?_nil (d : Disk) : d.node? [] = some .dir := rfl

theorem node?_of_ne_nil (d : Disk) (hq : q ≠ []) :
    d.node? q = (d.nodes.find? (·.1 == q)).map (·.2) := by
  simp [node?, hq]

@[simp] theorem node?_set (d : Disk) (p : Place) (n : Node) (q : Place) :
    (d.set p n).node? q = if q = p ∧ q ≠ [] then some n else d.node? q := by
  by_cases hq : q = []
  · subst hq; simp [node?_nil]
  · rw [node?_of_ne_nil _ hq, node?_of_ne_nil _ hq]
    by_cases hqp : q = p
    · subst hqp
      have h1 : (d.nodes.filter (·.1 != q)).find? (·.1 == q) = none := by
        rw [List.find?_eq_none]
        intro e he
        simp only [List.mem_filter, bne_iff_ne, ne_eq] at he
        simp [he.2]
      simp [set, List.find?_append, h1, hq]
    · simp only [set, List.find?_append, find?_filter_key_ne d.nodes hqp]
      cases h : d.nodes.find? (·.1 == q) <;> simp [hqp, Ne.symm hqp]

@[simp] theorem node?_drop (d : Disk) (p : Place) (q : Place) :
    (d.drop p).node? q = if p <+: q ∧ q ≠ [] then none else d.node? q := by
  by_cases hq : q = []
  · subst hq; simp [node?_nil]
  · rw [node?_of_ne_nil _ hq, node?_of_ne_nil _ hq]
    have hf : (d.nodes.filter fun e => !p.isPrefixOf e.1).find? (·.1 == q) =
        if p <+: q then none else d.nodes.find? (·.1 == q) := by
      rw [List.find?_filter]
      split
      · rename_i hpq
        rw [List.find?_eq_none]
        intro e _
        by_cases he : e.1 = q <;> simp [he, hpq, List.isPrefixOf_iff_prefix]
      · rename_i hpq
        have hpf : p.isPrefixOf q = false := by
          rw [Bool.eq_false_iff]
          exact fun h => hpq (List.isPrefixOf_iff_prefix.1 h)
        congr 1
        funext e
        by_cases he : e.1 = q <;> simp [he, hpf]
    simp only [drop, hf]
    split <;> simp_all


theorem forM_eq_ok {α ε : Type} (l : List α) (f : α → Except ε Unit) :
    l.forM f = .ok () ↔ ∀ x ∈ l, f x = .ok () := by
  induction l with
  | nil => simp [List.forM]; rfl
  | cons a l ih =>
    change (f a >>= fun _ => l.forM f) = .ok () ↔ _
    cases h : f a with
    | error e => simp [h, bind, Except.bind]
    | ok u =>
      simp only [h, bind, Except.bind, List.mem_cons, forall_eq_or_imp, true_and]
      exact ih

theorem reach_eq_ok (d : Disk) (p : Place) :
    d.reach p = .ok () ↔ ∀ k, 0 < k → k < p.length → d.node? (p.take k) = some .dir := by
  have hmem : ∀ k, k ∈ (List.range p.length).drop 1 ↔ 0 < k ∧ k < p.length := by
    intro k
    simp only [List.range_eq_range', List.drop_range', List.mem_range'_1]
    omega
  rw [reach, forM_eq_ok]
  constructor
  · intro h k hk hkl
    have hk' := h k ((hmem k).2 ⟨hk, hkl⟩)
    split at hk'
    · assumption
    · simp at hk'
    · simp at hk'
  · intro h k hk
    obtain ⟨hk, hkl⟩ := (hmem k).1 hk
    simp only [h k hk hkl]
    rfl


theorem lookup_eq_ok {o : Option Node} :
    d.lookup p = .ok o ↔ d.reach p = .ok () ∧ o = d.node? p := by
  unfold lookup
  cases hr : d.reach p with
  | error e => simp [bind, Except.bind]
  | ok u => simp [bind, Except.bind, pure, Except.pure, eq_comm]

/-- A disk shaped like a file system: every place above an entry is a directory, and places
are made of plain names. -/
structure Sound (d : Disk) : Prop where
  above : ∀ q n, d.node? q = some n → ∀ k, k < q.length → d.node? (q.take k) = some .dir
  plain : ∀ q n, d.node? q = some n → ∀ s ∈ q, Path.Plain s

theorem Sound.below_file (hs : d.Sound) {i : Nat} (hp : d.node? p = some (.file i))
    {q : Place} (hpq : p <+: q) (hne : q ≠ p) : d.node? q = none := by
  cases hq : d.node? q with
  | none => rfl
  | some n =>
    obtain ⟨r, rfl⟩ := hpq
    have hr : r ≠ [] := by rintro rfl; simp at hne
    have := hs.above _ n hq p.length (by simp; exact List.length_pos_iff.2 hr)
    rw [List.take_left] at this
    rw [hp] at this
    cases this

theorem Sound.reach (hs : d.Sound) {n : Node} (hp : d.node? p = some n) : d.reach p = .ok () :=
  (reach_eq_ok d p).2 fun k _ hk => hs.above p n hp k hk

theorem Sound.of_node? (hs : d.Sound) (h : ∀ q, d'.node? q = d.node? q) : d'.Sound where
  above q n hq k hk := by
    rw [h] at hq ⊢
    exact hs.above q n hq k hk
  plain q n hq := hs.plain q n (h q ▸ hq)

theorem Sound.drop (hs : d.Sound) (p : Place) : (d.drop p).Sound where
  above q n hq k hk := by
    rw [node?_drop] at hq
    split at hq
    · cases hq
    · rename_i hpq
      rw [node?_drop, if_neg, hs.above q n hq k hk]
      rintro ⟨hpk, hk0⟩
      exact hpq ⟨hpk.trans (List.take_prefix k q), by rintro rfl; simp at hk0⟩
  plain q n hq := by
    rw [node?_drop] at hq
    split at hq
    · cases hq
    · exact hs.plain q n hq

/-- Unlinking a file takes away that file only. -/
theorem removeFile_eq_ok (hs : d.Sound) (h : d.removeFile p = .ok d') :
    (∃ i, d.node? p = some (.file i)) ∧ d'.Sound ∧ d'.inodes = d.inodes ∧
      ∀ q, d'.node? q = if q = p then none else d.node? q := by
  obtain ⟨i, hi, rfl⟩ : ∃ i, d.node? p = some (.file i) ∧ d' = d.drop p := by
    unfold removeFile at h
    cases hl : d.lookup p with
    | error e => simp [hl, bind, Except.bind] at h
    | ok o =>
      obtain ⟨-, rfl⟩ := lookup_eq_ok.1 hl
      rw [hl] at h
      rcases hn : d.node? p with _ | _ | i <;> simp [hn, bind, Except.bind, throw, throwThe,
        MonadExceptOf.throw, pure, Except.pure] at h
      exact ⟨i, rfl, h.symm⟩
  refine ⟨⟨i, hi⟩, hs.drop p, rfl, fun q => ?_⟩
  rw [node?_drop]
  by_cases hqp : q = p
  · subst hqp
    have : q ≠ [] := by rintro rfl; simp [node?_nil] at hi
    simp [this]
  · rw [if_neg hqp]
    split
    · rename_i hpq
      exact (hs.below_file hi hpq.1 hqp).symm
    · rfl


@[simp] theorem node?_allocate (d : Disk) (b : ByteArray) (now : Nat) (q : Place) :
    (d.allocate b now).2.node? q = d.node? q := rfl

theorem openWrite_of_none (hr : d.reach p = .ok ()) (hp : d.node? p = none) (how : Opening)
    (now : Nat) : d.openWrite p how now =
      .ok (d.inodes.size, (d.allocate ByteArray.empty now).2.set p (.file d.inodes.size)) := by
  have hl : d.lookup p = .ok none := lookup_eq_ok.2 ⟨hr, hp.symm⟩
  simp [openWrite, hl, bind, Except.bind, allocate, pure, Except.pure]

/-- Setting a missing place whose places above are directories keeps a disk sound. -/
theorem Sound.set (hs : d.Sound) (hp0 : p ≠ [])
    (habove : ∀ k, k < p.length → d.node? (p.take k) = some .dir)
    (hplain : ∀ s ∈ p, Path.Plain s) (hnone : d.node? p = none) (n : Node) : (d.set p n).Sound where
  above q m hq k hk := by
    rw [node?_set] at hq ⊢
    split at hq
    · rename_i hqp
      obtain ⟨rfl, -⟩ := hqp
      rw [if_neg (fun h => by have := congrArg List.length h.1; simp at this; omega)]
      exact habove k hk
    · rename_i hqp
      have hk' := hs.above q m hq k hk
      rw [if_neg]
      · exact hk'
      · rintro ⟨h, -⟩
        rw [h, hnone] at hk'
        cases hk'
  plain q m hq := by
    rw [node?_set] at hq
    split at hq
    · rename_i hqp
      obtain ⟨rfl, -⟩ := hqp
      exact hplain
    · exact hs.plain q m hq

theorem Sound.above_append (hs : d.Sound) (hq : d.node? q = some .dir) (x : String) :
    ∀ k, k < (q ++ [x]).length → d.node? ((q ++ [x]).take k) = some .dir := by
  intro k hk
  simp only [List.length_append, List.length_singleton] at hk
  rw [List.take_append_of_le_length (by omega)]
  rcases Nat.lt_or_ge k q.length with hlt | hge
  · exact hs.above q .dir hq k hlt
  · rw [List.take_of_length_le hge]
    exact hq

theorem Sound.reach_append (hs : d.Sound) (hq : d.node? q = some .dir) (x : String) :
    d.reach (q ++ [x]) = .ok () :=
  (reach_eq_ok d _).2 fun k _ hk => hs.above_append hq x k hk

theorem Sound.openWrite_append (hs : d.Sound) (hq : d.node? q = some .dir) {x : String}
    (hx : Path.Plain x) (hnone : d.node? (q ++ [x]) = none) (now : Nat) :
    ((d.allocate ByteArray.empty now).2.set (q ++ [x]) (.file d.inodes.size)).Sound := by
  have ha : (d.allocate ByteArray.empty now).2.Sound := hs.of_node? fun _ => rfl
  refine ha.set (by simp) (fun k hk => hs.above_append hq x k hk) (fun s hs' => ?_) hnone _
  rcases List.mem_append.1 hs' with h | h
  · exact hs.plain q .dir hq s h
  · rw [List.mem_singleton.1 h]
    exact hx

theorem bytes_set (d : Disk) (p : Place) (n : Node) : (d.set p n).bytes = d.bytes := rfl

theorem find?_moved (l : List (Place × Node)) (src dst r : Place) :
    ((l.filter fun e => src.isPrefixOf e.1).map fun e => (dst ++ e.1.drop src.length, e.2)).find?
      (·.1 == dst ++ r) = (l.find? (·.1 == src ++ r)).map fun e => (dst ++ r, e.2) := by
  induction l with
  | nil => rfl
  | cons e l ih =>
    by_cases he : src <+: e.1
    · obtain ⟨t, ht⟩ := he
      have hp : src.isPrefixOf e.1 = true := List.isPrefixOf_iff_prefix.2 ⟨t, ht⟩
      have hd : e.1.drop src.length = t := by rw [← ht]; simp
      by_cases htr : t = r
      · subst htr
        simp [← ht]
      · have hne : (e.1 == src ++ r) = false := by rw [← ht]; simp [htr]
        simp [hp, hd, htr, hne, ih]
    · have hp : src.isPrefixOf e.1 = false := by
        rw [Bool.eq_false_iff]
        exact fun h => he (List.isPrefixOf_iff_prefix.1 h)
      have hne : (e.1 == src ++ r) = false := by
        rw [Bool.eq_false_iff]
        intro h
        exact he ⟨r, (beq_iff_eq.1 h).symm⟩
      simp [hp, hne, ih]


/-- What a successful move of an entry leaves: the entry and what lies below it at the new
place, nothing at the old one. -/
theorem rename_eq_ok {src dst : Place} (h : d.rename src dst = .ok d') :
    d.reach dst = .ok () ∧ (∃ n, d.node? src = some n) ∧
      (src = dst ∧ d' = d ∨ ¬ src <+: dst ∧ (d.node? src ≠ some .dir → d.node? dst ≠ some .dir) ∧
        d'.inodes = d.inodes ∧ ∀ q, q ≠ [] → d'.node? q =
          if dst <+: q then d.node? (src ++ q.drop dst.length)
          else if src <+: q then none else d.node? q) := by
  unfold rename at h
  cases hrs : d.reach src with
  | error e => simp [hrs, bind, Except.bind] at h
  | ok u =>
  cases hrd : d.reach dst with
  | error e => simp [hrs, hrd, bind, Except.bind] at h
  | ok v =>
  simp only [hrs, hrd, bind, Except.bind] at h
  obtain ⟨n, hn⟩ : ∃ n, d.node? src = some n := by
    cases hn : d.node? src with
    | none => simp [hn, throw, throwThe, MonadExceptOf.throw] at h
    | some n => exact ⟨n, rfl⟩
  simp only [hn] at h
  refine ⟨rfl, ⟨n, hn⟩, ?_⟩
  by_cases hsd : src = dst
  · simp only [hsd, if_true, pure, Except.pure, Except.ok.injEq] at h
    exact .inl ⟨hsd, h.symm⟩
  rw [if_neg hsd] at h
  have hpre : ¬ src <+: dst := by
    intro hp
    rw [if_pos (List.isPrefixOf_iff_prefix.2 hp)] at h
    simp [throw, throwThe, MonadExceptOf.throw] at h
  rw [if_neg (by rwa [Bool.not_eq_true, Bool.eq_false_iff, Ne, List.isPrefixOf_iff_prefix])] at h
  have hmove : (n ≠ .dir → d.node? dst ≠ some .dir) ∧ d' =
      { nodes := ((d.drop src).drop dst).nodes ++ ((d.nodes.filter fun e => src.isPrefixOf e.1).map
          fun e => (dst ++ e.1.drop src.length, e.2)), inodes := d.inodes } := by
    rcases n with _ | i <;> rcases hdn : d.node? dst with _ | _ | j <;>
      simp [hdn, throw, throwThe, MonadExceptOf.throw, pure, Except.pure] at h ⊢
    case dir.some.dir =>
      split at h
      · exact (Except.ok.inj h).symm
      · cases h
    all_goals exact h.symm
  obtain ⟨hdir, rfl⟩ := hmove
  refine .inr ⟨hpre, fun hs => hdir (fun hd => hs (hd ▸ hn)), rfl, fun q hq => ?_⟩
  have hsrc : src ≠ [] := by rintro rfl; exact hpre (List.nil_prefix)
  have hr : (((d.drop src).drop dst).nodes.find? (·.1 == q)).map (·.2) =
      if dst <+: q ∨ src <+: q then none else d.node? q := by
    rw [← node?_of_ne_nil _ hq, node?_drop, node?_drop]
    by_cases h1 : dst <+: q <;> by_cases h2 : src <+: q <;> simp [h1, h2, hq]
  rw [node?_of_ne_nil _ hq, List.find?_append]
  by_cases hdq : dst <+: q
  · obtain ⟨r, rfl⟩ := hdq
    have hnone : ((d.drop src).drop dst).nodes.find? (·.1 == dst ++ r) = none := by
      simpa using hr
    rw [hnone, Option.none_or, find?_moved, if_pos (List.prefix_append dst r),
      node?_of_ne_nil _ (by simp [hsrc])]
    simp [Option.map_map, Function.comp_def]
  · have hmv : (((d.nodes.filter fun e => src.isPrefixOf e.1).map
        fun e => (dst ++ e.1.drop src.length, e.2)).find? (·.1 == q)) = none := by
      rw [List.find?_eq_none]
      intro e he
      obtain ⟨e', -, rfl⟩ := List.mem_map.1 he
      intro heq
      exact hdq ⟨_, beq_iff_eq.1 heq⟩
    rw [Option.map_or, hmv, Option.map_none, Option.or_none, hr]
    by_cases h2 : src <+: q <;> simp [hdq, h2]


/-- Moving a file in a sound disk: the file is at the new place, nothing at the old one, and
everything else stays. -/
theorem rename_file (hs : d.Sound) {src dst : Place} {i : Nat} (hsrc : d.node? src = some (.file i))
    (hplain : ∀ s ∈ dst, Path.Plain s) (h : d.rename src dst = .ok d') :
    d'.Sound ∧ d'.inodes = d.inodes ∧
      ∀ q, d'.node? q = if q = dst then some (.file i) else if q = src then none else d.node? q := by
  obtain ⟨hrd, -, ⟨rfl, rfl⟩ | ⟨hpre, hdst, hino, hnode⟩⟩ := rename_eq_ok h
  · refine ⟨hs, rfl, fun q => ?_⟩
    by_cases hq : q = src
    · subst hq; simp [hsrc]
    · simp [hq]
  have hdst' : d.node? dst ≠ some .dir := hdst (by rw [hsrc]; simp)
  have hbelow : ∀ q, dst <+: q → q ≠ dst → d.node? q = none := by
    intro q hdq hne
    cases hq : d.node? q with
    | none => rfl
    | some m =>
      obtain ⟨r, rfl⟩ := hdq
      have hr : r ≠ [] := by rintro rfl; simp at hne
      have := hs.above _ m hq dst.length (by simp; exact List.length_pos_iff.2 hr)
      rw [List.take_left] at this
      exact absurd this hdst'
  have hsrc0 : src ≠ [] := by rintro rfl; simp [node?_nil] at hsrc
  have hdst0 : dst ≠ [] := by rintro rfl; exact hdst' (node?_nil d)
  have hsd : src ≠ dst := by rintro rfl; exact hpre (List.prefix_refl _)
  have hform : ∀ q, d'.node? q =
      if q = dst then some (.file i) else if q = src then none else d.node? q := by
    intro q
    by_cases hq : q = []
    · subst hq; simp [node?_nil, Ne.symm hsrc0, Ne.symm hdst0]
    rw [hnode q hq]
    by_cases hdq : dst <+: q
    · obtain ⟨r, rfl⟩ := hdq
      by_cases hr : r = []
      · subst hr; simp [hsrc]
      · have hne : dst ++ r ≠ dst := by simp [hr]
        have hns : dst ++ r ≠ src := by
          rintro h'
          exact hdst' (by
            have := hs.above src _ hsrc dst.length (by rw [← h']; simp; exact List.length_pos_iff.2 hr)
            rwa [← h', List.take_left] at this)
        rw [if_pos (List.prefix_append _ _), if_neg hne, if_neg hns, List.drop_left,
          hbelow _ (List.prefix_append _ _) hne, hs.below_file hsrc (List.prefix_append _ _)
            (by simp [hr])]
    · have hqd : q ≠ dst := by rintro rfl; exact hdq (List.prefix_refl _)
      rw [if_neg hdq, if_neg hqd]
      by_cases hsq : src <+: q
      · rw [if_pos hsq]
        by_cases hqs : q = src
        · simp [hqs]
        · rw [if_neg hqs, hs.below_file hsrc hsq hqs]
      · have hqs : q ≠ src := by rintro rfl; exact hsq (List.prefix_refl _)
        rw [if_neg hsq, if_neg hqs]
  refine ⟨⟨fun q m hq k hk => ?_, fun q m hq => ?_⟩, hino, hform⟩
  · rw [hform] at hq ⊢
    have htk : q.take k ≠ q := fun h' => by
      have := congrArg List.length h'
      simp at this
      omega
    split at hq
    · rename_i hqd
      subst hqd
      have hns : q.take k ≠ src := fun h' => hpre (h' ▸ List.take_prefix k q)
      rw [if_neg htk, if_neg hns]
      by_cases hk0 : k = 0
      · subst hk0; simp [node?_nil]
      · exact (reach_eq_ok d q).1 hrd k (Nat.pos_of_ne_zero hk0) hk
    · split at hq
      · cases hq
      · have hk' := hs.above q m hq k hk
        have hnd : q.take k ≠ dst := fun h' => hdst' (h' ▸ hk')
        have hns : q.take k ≠ src := fun h' => by rw [h', hsrc] at hk'; cases hk'
        rw [if_neg hnd, if_neg hns, hk']
  · rw [hform] at hq
    split at hq
    · rename_i hqd; subst hqd; exact hplain
    · split at hq
      · cases hq
      · exact hs.plain q m hq

/-- Moving an entry, with what lies below it, to a place of plain names keeps a disk sound. -/
theorem Sound.rename (hs : d.Sound) {src dst : Place} (hplain : ∀ s ∈ dst, Path.Plain s)
    (h : d.rename src dst = .ok d') : d'.Sound := by
  obtain ⟨hrd, -, ⟨-, rfl⟩ | ⟨hpre, -, -, hnode⟩⟩ := rename_eq_ok h
  · exact hs
  constructor
  · intro q m hq k hk
    have hq0 : q ≠ [] := by rintro rfl; simp at hk
    by_cases hk0 : q.take k = []
    · rw [hk0, node?_nil]
    rw [hnode _ hq0] at hq
    rw [hnode _ hk0]
    by_cases hdq : dst <+: q
    · rw [if_pos hdq] at hq
      obtain ⟨r, rfl⟩ := hdq
      by_cases hkd : dst.length ≤ k
      -- the place above lies in the moved part: it came from the place above in the old one
      · have htake : (dst ++ r).take k = dst ++ r.take (k - dst.length) := by
          rw [List.take_append, List.take_of_length_le hkd]
        have hsrc : (src ++ r).take (src.length + (k - dst.length)) =
            src ++ r.take (k - dst.length) := by
          rw [List.take_append, List.take_of_length_le (by omega), Nat.add_sub_cancel_left]
        rw [htake, if_pos (List.prefix_append _ _), List.drop_left, ← hsrc]
        rw [List.drop_left] at hq
        exact hs.above _ m hq _ (by simp at hk ⊢; omega)
      -- the place above is above the new place, and was not moved
      · have htake : (dst ++ r).take k = dst.take k := by
          rw [List.take_append_of_le_length (by omega)]
        have hnd : ¬ dst <+: dst.take k := fun h' => by
          have := h'.length_le
          simp at this
          omega
        have hns : ¬ src <+: dst.take k := fun h' => hpre (h'.trans (List.take_prefix k dst))
        rw [htake, if_neg hnd, if_neg hns]
        rw [htake] at hk0
        exact (reach_eq_ok d dst).1 hrd k
          (Nat.pos_of_ne_zero fun h0 => hk0 (by rw [h0, List.take_zero])) (by omega)
    · rw [if_neg hdq] at hq
      by_cases hsq : src <+: q
      · rw [if_pos hsq] at hq
        cases hq
      rw [if_neg hsq] at hq
      have htk : q.take k <+: q := List.take_prefix k q
      rw [if_neg fun h' => hdq (h'.trans htk), if_neg fun h' => hsq (h'.trans htk)]
      exact hs.above q m hq k hk
  · intro q m hq
    by_cases hq0 : q = []
    · subst hq0; simp
    rw [hnode _ hq0] at hq
    by_cases hdq : dst <+: q
    · rw [if_pos hdq] at hq
      obtain ⟨r, rfl⟩ := hdq
      rw [List.drop_left] at hq
      intro s hsr
      rcases List.mem_append.1 hsr with hs' | hs'
      · exact hplain s hs'
      · exact hs.plain _ m hq s (List.mem_append_right _ hs')
    · rw [if_neg hdq] at hq
      split at hq
      · cases hq
      · exact hs.plain q m hq

theorem Sound.plain_of_children (hs : d.Sound) {name : String} {n : Node}
    (h : (name, n) ∈ d.children p) : Path.Plain name := by
  unfold children at h
  rw [List.mem_mergeSort, List.mem_filterMap] at h
  obtain ⟨⟨q, m⟩, hq, he⟩ := h
  dsimp only at he
  split at he
  · obtain ⟨last, hlast, heq⟩ := Option.map_eq_some_iff.1 he
    cases heq
    obtain ⟨n', hn'⟩ : ∃ n', d.node? q = some n' := by
      have hq0 : q ≠ [] := by rintro rfl; simp at hlast
      rw [node?_of_ne_nil _ hq0]
      obtain ⟨e, he'⟩ := Option.isSome_iff_exists.1
        (List.find?_isSome.2 ⟨_, hq, by simp⟩ : (d.nodes.find? (·.1 == q)).isSome)
      exact ⟨e.2, by rw [he']; rfl⟩
    exact hs.plain q n' hn' _ (List.mem_of_getLast? hlast)
  · cases he

/-- The disk `d'` is `d` with some files unlinked: the inodes stay, and every place holds what
it held or, where it held a file, nothing. -/
structure Unlinked (d d' : Disk) : Prop where
  inodes : d'.inodes = d.inodes
  node : ∀ q, d'.node? q = d.node? q ∨ d'.node? q = none ∧ ∃ i, d.node? q = some (.file i)

theorem Unlinked.refl (d : Disk) : Unlinked d d := ⟨rfl, fun _ => .inl rfl⟩

theorem Unlinked.trans {d'' : Disk} (h : Unlinked d d') (h' : Unlinked d' d'') : Unlinked d d'' where
  inodes := h'.inodes.trans h.inodes
  node q := by
    rcases h'.node q with h2 | ⟨h2, i, hi⟩
    · rw [h2]
      exact h.node q
    · rcases h.node q with h1 | ⟨h1, -⟩
      · exact .inr ⟨h2, i, h1 ▸ hi⟩
      · rw [h1] at hi
        cases hi

theorem Unlinked.of_some (h : Unlinked d d') {n : Node} (hq : d'.node? q = some n) :
    d.node? q = some n := by
  rcases h.node q with h1 | ⟨h1, -⟩
  · rwa [← h1]
  · rw [h1] at hq
    cases hq

theorem Unlinked.of_none (h : Unlinked d d') (hq : d.node? q = none) : d'.node? q = none := by
  rcases h.node q with h1 | ⟨h1, -⟩
  · rwa [h1]
  · exact h1

theorem Unlinked.dir (h : Unlinked d d') (hq : d.node? q = some .dir) : d'.node? q = some .dir := by
  rcases h.node q with h1 | ⟨-, i, hi⟩
  · rwa [h1]
  · rw [hq] at hi
    cases hi

theorem Unlinked.sound (h : Unlinked d d') (hs : d.Sound) : d'.Sound where
  above q n hq k hk := h.dir (hs.above q n (h.of_some hq) k hk)
  plain q n hq := hs.plain q n (h.of_some hq)

theorem removeFile_unlinked (hs : d.Sound) (h : d.removeFile p = .ok d') : Unlinked d d' := by
  obtain ⟨⟨i, hi⟩, -, hino, hq⟩ := removeFile_eq_ok hs h
  refine ⟨hino, fun q => ?_⟩
  rw [hq q]
  split
  · next hqp => exact .inr ⟨rfl, i, hqp ▸ hi⟩
  · exact .inl rfl

theorem removeFileAt_unlinked (hs : d.Sound) {t : String} (h : d.removeFileAt t = .ok d') :
    Unlinked d d' := by
  unfold removeFileAt at h
  cases hp : placeOf t with
  | error e => simp [hp, bind, Except.bind] at h
  | ok p =>
    simp only [hp, bind, Except.bind] at h
    exact removeFile_unlinked hs h

theorem inodes_foldl_set_dir (p : Place) (L : List Nat) (d : Disk) :
    (L.foldl (fun d n => d.set (p.take n) .dir) d).inodes = d.inodes := by
  induction L generalizing d with
  | nil => rfl
  | cons n L ih => rw [List.foldl_cons, ih]; rfl

theorem node?_foldl_set_dir (p : Place) (L : List Nat) (d : Disk) (q : Place) :
    (L.foldl (fun d n => d.set (p.take n) .dir) d).node? q =
      if q ≠ [] ∧ ∃ n ∈ L, q = p.take n then some .dir else d.node? q := by
  induction L generalizing d with
  | nil => simp
  | cons n L ih =>
    rw [List.foldl_cons, ih, node?_set]
    by_cases hq : q = []
    · simp [hq]
    · by_cases hn : q = p.take n
      · have hin : q ≠ [] ∧ ∃ m ∈ n :: L, q = p.take m := ⟨hq, n, List.mem_cons_self, hn⟩
        rw [if_pos hin, if_pos (show q = p.take n ∧ q ≠ [] from ⟨hn, hq⟩)]
        split <;> rfl
      · simp [hq, hn]

/-- Making a directory and the missing ones above it adds directories at the missing places on
the way, and nothing else. -/
theorem makeDirs_eq_ok (hs : d.Sound) (hplain : ∀ s ∈ p, Path.Plain s) (h : d.makeDirs p = .ok d') :
    d'.Sound ∧ d'.inodes = d.inodes ∧
      ∀ q, d'.node? q = if q ≠ [] ∧ q <+: p ∧ d.node? q = none then some .dir else d.node? q := by
  unfold makeDirs at h
  cases hp : d.node? p with
  | some n =>
    rcases n with _ | i <;> simp [hp, throw, throwThe, MonadExceptOf.throw, pure,
      Except.pure] at h
    subst h
    refine ⟨hs, rfl, fun q => ?_⟩
    rw [if_neg]
    rintro ⟨hq0, hqp, hqn⟩
    by_cases hqe : q = p
    · rw [hqe, hp] at hqn; cases hqn
    · obtain ⟨r, rfl⟩ := hqp
      have hr : r ≠ [] := by rintro rfl; simp at hqe
      have := hs.above _ _ hp q.length (by simp; exact List.length_pos_iff.2 hr)
      rw [List.take_left, hqn] at this
      cases this
  | none =>
    simp only [hp] at h
    split at h
    · cases h
    rename_i hblocked
    simp only [pure, Except.pure, Except.ok.injEq] at h
    subst h
    have hnofile : ∀ k, 0 < k → k < p.length → ∀ i, d.node? (p.take k) ≠ some (.file i) := by
      intro k hk0 hk i hki
      apply hblocked
      rw [List.any_eq_true]
      refine ⟨k, ?_, by simp [hki]⟩
      simp only [List.range_eq_range', List.drop_range', List.mem_range'_1]
      omega
    have hform : ∀ q, (((List.range (p.length + 1)).drop 1).filter
        (fun n => (d.node? (p.take n)).isNone) |>.foldl (fun d n => d.set (p.take n) .dir) d).node? q =
        if q ≠ [] ∧ q <+: p ∧ d.node? q = none then some .dir else d.node? q := by
      intro q
      rw [node?_foldl_set_dir]
      congr 1
      apply propext
      constructor
      · rintro ⟨hq, n, hn, rfl⟩
        simp only [List.mem_filter, Option.isNone_iff_eq_none] at hn
        exact ⟨hq, List.take_prefix n p, hn.2⟩
      · rintro ⟨hq, hqp, hqn⟩
        refine ⟨hq, q.length, ?_, (List.prefix_iff_eq_take.1 hqp)⟩
        simp only [List.mem_filter, Option.isNone_iff_eq_none, List.range_eq_range',
          List.drop_range', List.mem_range'_1]
        refine ⟨⟨List.length_pos_iff.2 hq, ?_⟩, ?_⟩
        · have := hqp.length_le
          omega
        · rw [← List.prefix_iff_eq_take.1 hqp]; exact hqn
    refine ⟨⟨fun q m hq k hk => ?_, fun q m hq => ?_⟩, inodes_foldl_set_dir _ _ _, hform⟩
    · rw [hform] at hq ⊢
      have hkq : q.take k <+: q := List.take_prefix k q
      by_cases hk0 : q.take k = []
      · rw [if_neg (fun h => h.1 hk0), hk0, node?_nil]
      split at hq
      · rename_i hnew
        obtain ⟨-, hqp, -⟩ := hnew
        cases hn : d.node? (q.take k) with
        | none => rw [if_pos ⟨hk0, hkq.trans hqp, rfl⟩]
        | some n =>
          rw [if_neg (by simp)]
          rcases n with _ | i
          · rfl
          · have hlen : (q.take k).length = k := by simp; omega
            have hpk : q.take k = p.take k := by
              rw [List.prefix_iff_eq_take.1 (hkq.trans hqp), hlen]
            rw [hpk] at hn
            exact absurd hn (hnofile k (by rw [← hlen]; exact List.length_pos_iff.2 hk0)
              (by have := hqp.length_le; omega) i)
      · have hk' := hs.above q m hq k hk
        rw [if_neg (by simp [hk']), hk']
    · rw [hform] at hq
      split at hq
      · rename_i hnew
        exact fun s hs' => hplain s (hnew.2.1.subset hs')
      · exact hs.plain q m hq


@[simp] theorem node?_store (d : Disk) (i : Nat) (b : ByteArray) (now : Nat) (q : Place) :
    (d.store i b now).node? q = d.node? q := rfl

@[simp] theorem node?_append (d : Disk) (i : Nat) (b : ByteArray) (now : Nat) (q : Place) :
    (d.append i b now).node? q = d.node? q := rfl

theorem bytes_allocate (d : Disk) (b : ByteArray) (now j : Nat) :
    (d.allocate b now).2.bytes j = if j = d.inodes.size then b else d.bytes j := by
  simp only [allocate, bytes, Array.getD_eq_getD_getElem?, Array.getElem?_push]
  split <;> simp

theorem bytes_store (d : Disk) {i : Nat} (hi : i < d.inodes.size) (b : ByteArray) (now j : Nat) :
    (d.store i b now).bytes j = if j = i then b else d.bytes j := by
  by_cases hj : j = i
  · subst hj
    simp [store, bytes, Array.getD_eq_getD_getElem?, hi]
  · simp [store, bytes, Array.getD_eq_getD_getElem?, Ne.symm hj, hj]

theorem bytes_append (d : Disk) {i : Nat} (hi : i < d.inodes.size) (b : ByteArray) (now j : Nat) :
    (d.append i b now).bytes j = if j = i then d.bytes i ++ b else d.bytes j :=
  bytes_store d hi _ now j

@[simp] theorem size_allocate (d : Disk) (b : ByteArray) (now : Nat) :
    (d.allocate b now).2.inodes.size = d.inodes.size + 1 := by
  simp [allocate]

@[simp] theorem size_store (d : Disk) (i : Nat) (b : ByteArray) (now : Nat) :
    (d.store i b now).inodes.size = d.inodes.size := by
  simp [store]

@[simp] theorem size_append (d : Disk) (i : Nat) (b : ByteArray) (now : Nat) :
    (d.append i b now).inodes.size = d.inodes.size := by
  simp [append]

end Disk

end FileSystem

end ClaimStore
