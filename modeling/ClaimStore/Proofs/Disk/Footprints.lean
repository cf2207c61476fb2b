import ClaimStore.Proofs.Disk.Operations
/-!
# Footprints of disk operations

Every operation on the disk looks at a few places only and changes fewer still: a move reads the
places on the way to its source and target and those below them, and changes only what lies at
or below the two; making a directory reads the places above it; unlinking reads the way to the
file. Two disks that agree on what an operation reads give the same answer, and leave disks that
agree there again (`SameOn`), and the places outside what it changes keep what they held.

From these two facts alone, two steps each of which changes nothing the other reads commute:
either order answers the same and leaves the same tree (`Confined.swap`).
-/

set_option autoImplicit false

namespace ClaimStore.FileSystem

/-- Two outcomes agree up to `R`: the same error, or answers related by `R`. -/
def Agree {α : Type} (R : α → α → Prop) : IoResult α → IoResult α → Prop
  | .ok a, .ok a' => R a a'
  | .error e, .error e' => e = e'
  | _, _ => False

namespace Agree

variable {α β : Type} {R : α → α → Prop} {S : β → β → Prop}

theorem of_eq (hR : ∀ a, R a a) (x : IoResult α) : Agree R x x := by
  cases x with
  | error e => rfl
  | ok a => exact hR a

theorem bind {x x' : IoResult α} (h : Agree R x x') {f g : α → IoResult β}
    (hfg : ∀ a a', R a a' → Agree S (f a) (g a')) : Agree S (x >>= f) (x' >>= g) := by
  cases x with
  | error e =>
    cases x' with
    | error e' => exact h
    | ok a' => exact h.elim
  | ok a =>
    cases x' with
    | error e' => exact h.elim
    | ok a' => exact hfg a a' h

theorem cases {x x' : IoResult α} (h : Agree R x x') :
    (∃ a a', x = .ok a ∧ x' = .ok a' ∧ R a a') ∨ ∃ e, x = .error e ∧ x' = .error e := by
  cases x with
  | error e =>
    cases x' with
    | error e' => exact .inr ⟨e, rfl, congrArg _ h.symm⟩
    | ok a' => exact h.elim
  | ok a =>
    cases x' with
    | error e' => exact h.elim
    | ok a' => exact .inl ⟨a, a', rfl, rfl, h⟩

theorem bind_eq {x : IoResult α} {f g : α → IoResult β} (hfg : ∀ a, Agree S (f a) (g a)) :
    Agree S (x >>= f) (x >>= g) :=
  bind (of_eq (R := Eq) (fun _ => rfl) x) fun a _ h => h ▸ hfg a

theorem mono {R' : α → α → Prop} {x x' : IoResult α} (h : Agree R x x')
    (hR : ∀ a a', R a a' → R' a a') : Agree R' x x' := by
  rcases h.cases with ⟨a, a', rfl, rfl, haa⟩ | ⟨e, rfl, rfl⟩
  · exact hR a a' haa
  · rfl

end Agree

theorem forM_congr_mem {α ε : Type} (l : List α) {f g : α → Except ε Unit}
    (h : ∀ x ∈ l, f x = g x) : l.forM f = l.forM g := by
  induction l with
  | nil => rfl
  | cons a l ih =>
    change (f a >>= fun _ => l.forM f) = (g a >>= fun _ => l.forM g)
    rw [h a List.mem_cons_self, ih fun x hx => h x (List.mem_cons_of_mem a hx)]

namespace Disk

/-- Two disks agree on the places `F` picks, and hold the same inodes. -/
structure SameOn (F : Place → Prop) (d d' : Disk) : Prop where
  node : ∀ q, F q → d.node? q = d'.node? q
  inodes : d.inodes = d'.inodes

/-- Two disks hold the same tree: every place holds the same on both, and so does every inode.
They may list their places in different orders. -/
def Same (d d' : Disk) : Prop := SameOn (fun _ => True) d d'

/-- The places a move from `src` to `dst` reads: those on the way to either, and those at or
below either. -/
def MoveZone (src dst q : Place) : Prop := q <+: src ∨ q <+: dst ∨ src <+: q ∨ dst <+: q

variable {F G W : Place → Prop} {d d' d'' : Disk}

/-- A directory lists nothing exactly when no place one name below it holds anything. -/
theorem children_eq_nil_iff (d : Disk) (p : Place) :
    d.children p = [] ↔ ∀ q, q.length = p.length + 1 → p <+: q → d.node? q = none := by
  unfold children
  rw [← List.length_eq_zero_iff, List.length_mergeSort, List.length_eq_zero_iff,
    List.filterMap_eq_nil_iff]
  constructor
  · intro h q hlen hpre
    have hq : q ≠ [] := by rintro rfl; simp at hlen
    rw [node?_of_ne_nil _ hq, Option.map_eq_none_iff, List.find?_eq_none]
    intro e he heq
    have := h e he
    simp only [beq_iff_eq] at heq
    subst heq
    simp [hlen, List.isPrefixOf_iff_prefix.2 hpre, List.getLast?_eq_none_iff, hq] at this
  · rintro h ⟨q, n⟩ he
    dsimp only
    split
    · next hcond =>
      simp only [Bool.and_eq_true, decide_eq_true_eq, List.isPrefixOf_iff_prefix] at hcond
      have hq : q ≠ [] := by rintro rfl; simpa using hcond.1
      have hnone := h q hcond.1 hcond.2
      rw [node?_of_ne_nil _ hq, Option.map_eq_none_iff, List.find?_eq_none] at hnone
      exact absurd (beq_self_eq_true q) (hnone (q, n) he)
    · rfl

/-- What moving `src`, with what lies below it, to `dst` leaves: below `dst` what lay below
`src`, nothing below `src`, and elsewhere what was there. -/
theorem node?_moved (d : Disk) {src dst : Place} (hsrc : src ≠ []) (q : Place) :
    (⟨((d.drop src).drop dst).nodes ++ (d.nodes.filter fun e => src.isPrefixOf e.1).map
        (fun e => (dst ++ e.1.drop src.length, e.2)), ((d.drop src).drop dst).inodes⟩ : Disk).node? q =
      if dst <+: q ∧ q ≠ [] then d.node? (src ++ q.drop dst.length)
      else if src <+: q ∧ q ≠ [] then none else d.node? q := by
  by_cases hq : q = []
  · subst hq
    simp [node?_nil]
  have hr : (((d.drop src).drop dst).nodes.find? (·.1 == q)).map (·.2) =
      if dst <+: q ∨ src <+: q then none else d.node? q := by
    rw [← node?_of_ne_nil _ hq, node?_drop, node?_drop]
    by_cases h1 : dst <+: q <;> by_cases h2 : src <+: q <;> simp [h1, h2, hq]
  rw [node?_of_ne_nil _ hq, List.find?_append]
  by_cases hdq : dst <+: q
  · obtain ⟨r, rfl⟩ := hdq
    have hnone : ((d.drop src).drop dst).nodes.find? (·.1 == dst ++ r) = none := by
      simpa using hr
    rw [hnone, Option.none_or, find?_moved, if_pos ⟨List.prefix_append dst r, hq⟩,
      node?_of_ne_nil _ (by simp [hsrc])]
    simp [Option.map_map, Function.comp_def]
  · have hmv : (((d.nodes.filter fun e => src.isPrefixOf e.1).map
        fun e => (dst ++ e.1.drop src.length, e.2)).find? (·.1 == q)) = none := by
      rw [List.find?_eq_none]
      intro e he
      obtain ⟨e', -, rfl⟩ := List.mem_map.1 he
      intro heq
      exact hdq ⟨_, beq_iff_eq.1 heq⟩
    rw [Option.map_or, hmv, Option.map_none, Option.or_none, hr]
    by_cases h2 : src <+: q <;> simp [hdq, h2, hq]

/-! ## Agreeing on a set of places -/

namespace SameOn

theorem refl (F : Place → Prop) (d : Disk) : d.SameOn F d := ⟨fun _ _ => rfl, rfl⟩

theorem symm (h : d.SameOn F d') : d'.SameOn F d :=
  ⟨fun q hq => (h.node q hq).symm, h.inodes.symm⟩

theorem trans (h : d.SameOn F d') (h' : d'.SameOn F d'') : d.SameOn F d'' :=
  ⟨fun q hq => (h.node q hq).trans (h'.node q hq), h.inodes.trans h'.inodes⟩

theorem mono (h : d.SameOn F d') (hFG : ∀ q, G q → F q) : d.SameOn G d' :=
  ⟨fun q hq => h.node q (hFG q hq), h.inodes⟩

theorem reach (h : d.SameOn F d') {p : Place} (hF : ∀ q, q <+: p → F q) :
    d.reach p = d'.reach p := by
  unfold Disk.reach
  refine forM_congr_mem _ fun n _ => ?_
  rw [h.node _ (hF _ (List.take_prefix n p))]

theorem lookup (h : d.SameOn F d') {p : Place} (hF : ∀ q, q <+: p → F q) :
    d.lookup p = d'.lookup p := by
  simp only [Disk.lookup, h.reach hF, h.node p (hF p (List.prefix_refl p))]

theorem stat (h : d.SameOn F d') {p : Place} (hF : ∀ q, q <+: p → F q) :
    d.stat p = d'.stat p := by
  simp only [Disk.stat, h.lookup hF]

theorem children_isEmpty (h : d.SameOn F d') {p : Place} (hF : ∀ q, p <+: q → F q) :
    (d.children p).isEmpty = (d'.children p).isEmpty := by
  rw [Bool.eq_iff_iff, List.isEmpty_iff, List.isEmpty_iff, children_eq_nil_iff,
    children_eq_nil_iff]
  exact forall_congr' fun q => imp_congr_right fun _ => imp_congr_right fun hq => by
    rw [h.node q (hF q hq)]

theorem set (h : d.SameOn F d') (p : Place) (n : Node) : (d.set p n).SameOn F (d'.set p n) :=
  ⟨fun q hq => by rw [node?_set, node?_set, h.node q hq], h.inodes⟩

theorem drop (h : d.SameOn F d') (p : Place) : (d.drop p).SameOn F (d'.drop p) :=
  ⟨fun q hq => by rw [node?_drop, node?_drop, h.node q hq], h.inodes⟩

theorem moved (h : d.SameOn F d') {src : Place} (dst : Place) (hsrc : src ≠ [])
    (hF : ∀ q, src <+: q → F q) :
    (⟨((d.drop src).drop dst).nodes ++ (d.nodes.filter fun e => src.isPrefixOf e.1).map
        (fun e => (dst ++ e.1.drop src.length, e.2)), ((d.drop src).drop dst).inodes⟩ : Disk).SameOn F
      ⟨((d'.drop src).drop dst).nodes ++ (d'.nodes.filter fun e => src.isPrefixOf e.1).map
        (fun e => (dst ++ e.1.drop src.length, e.2)), ((d'.drop src).drop dst).inodes⟩ :=
  ⟨fun q hq => by
    rw [node?_moved _ hsrc, node?_moved _ hsrc, h.node _ (hF _ (List.prefix_append _ _)),
      h.node q hq], h.inodes⟩

/-- A move answers alike on disks agreeing on what it reads, and leaves them agreeing. -/
theorem rename (h : d.SameOn F d') {src dst : Place} (hF : ∀ q, MoveZone src dst q → F q) :
    Agree (SameOn F) (d.rename src dst) (d'.rename src dst) := by
  unfold Disk.rename
  rw [h.reach fun q hq => hF q (.inl hq), h.reach fun q hq => hF q (.inr (.inl hq))]
  refine Agree.bind_eq fun _ => Agree.bind_eq fun _ => ?_
  rw [h.node src (hF _ (.inl (List.prefix_refl src))),
    h.node dst (hF _ (.inr (.inl (List.prefix_refl dst)))),
    h.children_isEmpty fun q hq => hF q (.inr (.inr (.inr hq)))]
  split
  · split
    · exact h
    · dsimp only
      split
      · rfl
      · next hpre =>
        have hsrc : src ≠ [] := by rintro rfl; simp [List.isPrefixOf] at hpre
        have hX := h.moved dst hsrc fun q hq => hF q (.inr (.inr (.inl hq)))
        split
        · rfl
        · rfl
        · split
          · exact hX
          · rfl
        · exact hX
  · rfl

theorem foldl_set_dir (h : d.SameOn F d') (p : Place) (L : List Nat) :
    (L.foldl (fun d n => d.set (p.take n) .dir) d).SameOn F
      (L.foldl (fun d n => d.set (p.take n) .dir) d') :=
  ⟨fun q hq => by rw [node?_foldl_set_dir, node?_foldl_set_dir, h.node q hq],
    by rw [inodes_foldl_set_dir, inodes_foldl_set_dir, h.inodes]⟩

theorem makeDirs (h : d.SameOn F d') {p : Place} (hF : ∀ q, q <+: p → F q) :
    Agree (SameOn F) (d.makeDirs p) (d'.makeDirs p) := by
  have hway : ∀ n, d.node? (p.take n) = d'.node? (p.take n) :=
    fun n => h.node _ (hF _ (List.take_prefix n p))
  unfold Disk.makeDirs
  rw [h.node p (hF p (List.prefix_refl p))]
  simp only [hway]
  split
  · exact h
  · rfl
  · split
    · rfl
    · exact h.foldl_set_dir p _

theorem removeFile (h : d.SameOn F d') {p : Place} (hF : ∀ q, q <+: p → F q) :
    Agree (SameOn F) (d.removeFile p) (d'.removeFile p) := by
  unfold Disk.removeFile
  rw [h.lookup hF]
  refine Agree.bind_eq fun o => ?_
  split
  · exact h.drop p
  · rfl
  · rfl

end SameOn

namespace Same

theorem refl (d : Disk) : d.Same d := SameOn.refl _ d

theorem symm (h : d.Same d') : d'.Same d := SameOn.symm h

theorem trans (h : d.Same d') (h' : d'.Same d'') : d.Same d'' := SameOn.trans h h'

theorem node (h : d.Same d') (q : Place) : d.node? q = d'.node? q := SameOn.node h q trivial

theorem inodes (h : d.Same d') : d.inodes = d'.inodes := SameOn.inodes h

theorem sameOn (h : d.Same d') (F : Place → Prop) : d.SameOn F d' :=
  SameOn.mono h fun _ _ => trivial

theorem bytes (h : d.Same d') : d.bytes = d'.bytes := by
  funext i
  simp [Disk.bytes, h.inodes]

end Same

/-! ## What an operation leaves alone -/

theorem rename_frame {src dst : Place} (h : d.rename src dst = .ok d') :
    d'.SameOn (fun q => ¬ src <+: q ∧ ¬ dst <+: q) d := by
  obtain ⟨-, -, ⟨rfl, rfl⟩ | ⟨-, -, hinodes, hnode⟩⟩ := rename_eq_ok h
  · exact SameOn.refl _ _
  refine ⟨fun q ⟨hsq, hdq⟩ => ?_, hinodes⟩
  by_cases hq : q = []
  · rw [hq, node?_nil, node?_nil]
  · rw [hnode q hq, if_neg hdq, if_neg hsq]

/-- Once every place above `p` is a directory, making directories at `p` changes `p` alone. -/
theorem makeDirs_frame {p : Place}
    (hdirs : ∀ k, 0 < k → k < p.length → d.node? (p.take k) = some .dir)
    (h : d.makeDirs p = .ok d') : d'.SameOn (· ≠ p) d := by
  unfold Disk.makeDirs at h
  split at h
  · cases h
    exact SameOn.refl _ _
  · cases h
  · dsimp only at h
    split at h
    · cases h
    · cases h
      refine ⟨fun q hq => ?_, inodes_foldl_set_dir _ _ _⟩
      rw [node?_foldl_set_dir, if_neg]
      -- only a missing place on the way is made, and every one above `p` is there
      rintro ⟨-, n, hn, rfl⟩
      simp only [List.mem_filter, List.mem_drop_iff_getElem, List.getElem_range,
        List.length_range] at hn
      obtain ⟨⟨k, hk, rfl⟩, hnone⟩ := hn
      by_cases hlt : 1 + k < p.length
      · rw [hdirs (1 + k) (by omega) hlt] at hnone
        cases hnone
      · exact hq (List.take_of_length_le (by omega))

theorem removeFile_frame {p : Place} (h : d.removeFile p = .ok d') :
    d'.SameOn (fun q => ¬ p <+: q) d := by
  unfold Disk.removeFile at h
  cases hl : d.lookup p with
  | error e => simp [hl, bind, Except.bind] at h
  | ok o =>
    simp only [hl, bind, Except.bind] at h
    split at h
    · cases h
      refine ⟨fun q hq => ?_, rfl⟩
      rw [node?_drop, if_neg fun h => hq h.1]
    · cases h
    · cases h

/-! ## Steps confined to their footprint -/

/-- The verdict of an operation on the disk and the disk after it: done, nothing there
(`notFound`), or another error; a failure leaves the disk as it was. -/
def settle (d : Disk) : IoResult Disk → Except IoError Bool × Disk
  | .ok d' => (.ok true, d')
  | .error .notFound => (.ok false, d)
  | .error e => (.error e, d)

/-- A step on disks that reads the places `F` only and changes the places `W` only, all of them
among those it reads. -/
structure Confined {V : Type} (step : Disk → V × Disk) (F W : Place → Prop) : Prop where
  writes_read : ∀ q, W q → F q
  frame : ∀ d, (step d).2.SameOn (fun q => ¬ W q) d
  reads : ∀ d e, d.SameOn F e → (step d).1 = (step e).1 ∧ (step d).2.SameOn W (step e).2

namespace Confined

variable {V : Type} {f g : Disk → V × Disk} {Wf Wg : Place → Prop}

/-- Two steps each of which changes nothing the other reads commute: either answers the same
after the other as alone, and both orders leave the same tree. -/
theorem swap (hf : Confined f F Wf) (hg : Confined g G Wg) (hfg : ∀ q, Wf q → ¬ G q)
    (hgf : ∀ q, Wg q → ¬ F q) (d : Disk) :
    (g (f d).2).1 = (g d).1 ∧ (f (g d).2).1 = (f d).1 ∧ (g (f d).2).2.Same (f (g d).2).2 := by
  have h1 : (f d).2.SameOn G d := (hf.frame d).mono fun q hq hw => hfg q hw hq
  have h2 : (g d).2.SameOn F d := (hg.frame d).mono fun q hq hw => hgf q hw hq
  obtain ⟨hv1, hw1⟩ := hg.reads _ _ h1
  obtain ⟨hv2, hw2⟩ := hf.reads _ _ h2
  refine ⟨hv1, hv2, fun q _ => ?_, ?_⟩
  · by_cases hq1 : Wf q
    · -- changed by `f` alone
      calc (g (f d).2).2.node? q = (f d).2.node? q :=
            (hg.frame _).node q fun hq2 => hgf q hq2 (hf.writes_read q hq1)
        _ = (f (g d).2).2.node? q := (hw2.node q hq1).symm
    by_cases hq2 : Wg q
    · calc (g (f d).2).2.node? q = (g d).2.node? q := hw1.node q hq2
        _ = (f (g d).2).2.node? q := ((hf.frame _).node q hq1).symm
    · calc (g (f d).2).2.node? q = (f d).2.node? q := (hg.frame _).node q hq2
        _ = d.node? q := (hf.frame d).node q hq1
        _ = (g d).2.node? q := ((hg.frame d).node q hq2).symm
        _ = (f (g d).2).2.node? q := ((hf.frame _).node q hq1).symm
  · calc (g (f d).2).2.inodes = (f d).2.inodes := (hg.frame _).inodes
      _ = d.inodes := (hf.frame d).inodes
      _ = (g d).2.inodes := (hg.frame d).inodes.symm
      _ = (f (g d).2).2.inodes := (hf.frame _).inodes.symm

theorem same (hf : Confined f F W) {d e : Disk} (h : d.Same e) :
    (f d).1 = (f e).1 ∧ (f d).2.Same (f e).2 := by
  obtain ⟨hv, hw⟩ := hf.reads d e (h.sameOn F)
  refine ⟨hv, fun q _ => ?_, ((hf.frame d).inodes.trans h.inodes).trans (hf.frame e).inodes.symm⟩
  by_cases hq : W q
  · exact hw.node q hq
  · rw [(hf.frame d).node q hq, (hf.frame e).node q hq]
    exact h.node q

theorem settle {op : Disk → IoResult Disk} (hWF : ∀ q, W q → F q)
    (hframe : ∀ d d', op d = .ok d' → d'.SameOn (fun q => ¬ W q) d)
    (hreads : ∀ d e, d.SameOn F e → Agree (SameOn F) (op d) (op e)) :
    Confined (fun d => Disk.settle d (op d)) F W := by
  refine ⟨hWF, fun d => ?_, fun d e h => ?_⟩
  · cases hop : op d with
    | ok d' => exact hframe d d' hop
    | error e => cases e <;> exact SameOn.refl _ _
  · rcases (hreads d e h).cases with ⟨d', e', hd, he, hde⟩ | ⟨err, hd, he⟩
    · rw [hd, he]
      exact ⟨rfl, hde.mono hWF⟩
    · rw [hd, he]
      cases err <;> exact ⟨rfl, h.mono hWF⟩

end Confined

/-- Moving an entry, a missing one counting as done already. -/
def moveStep (src dst : Place) (d : Disk) : Except IoError Bool × Disk :=
  settle d (d.rename src dst)

theorem moveStep_confined (src dst : Place) :
    Confined (moveStep src dst) (MoveZone src dst) fun q => src <+: q ∨ dst <+: q :=
  Confined.settle (fun _ hq => hq.elim (fun h => .inr (.inr (.inl h))) fun h => .inr (.inr (.inr h)))
    (fun _ _ h => (rename_frame h).mono fun _ hq => ⟨fun h => hq (.inl h), fun h => hq (.inr h)⟩)
    fun _ _ h => h.rename fun _ hq => hq

/-- Unlinking a file, a missing one counting as done already. -/
def removeStep (p : Place) (d : Disk) : Except IoError Bool × Disk :=
  settle d (d.removeFile p)

theorem removeStep_confined (p : Place) :
    Confined (removeStep p) (fun q => q <+: p ∨ p <+: q) (p <+: ·) :=
  Confined.settle (fun _ hq => Or.inr hq) (fun _ _ h => removeFile_frame h)
    fun _ _ h => h.removeFile fun _ hq => Or.inl hq

end Disk

end ClaimStore.FileSystem
