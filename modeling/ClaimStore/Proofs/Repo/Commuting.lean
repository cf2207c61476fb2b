import ClaimStore.Proofs.Disk.Footprints
import ClaimStore.Proofs.Repo.Cleanup
/-!
# Destroying two claims' files in either order

What destroying a claim does to the disk (`reclaimStep`) is one of three steps: nothing, for a
claim in a section named like the archive directory while archiving; unlinking the claim's live
place; or archiving it, moving the live place into the archive directory beside it and making
that directory first when it is missing (`archiveStep`).

Of two different claims in a layout of containers whose roots lie apart, each step changes
nothing the other reads, except that two claims of one section share their archive directory:
whichever of them is archived first makes it. Either way the two steps commute
(`reclaimStep_commute`): each answers after the other as it does alone, and both orders leave
the same tree. A claim whose id is the archive directory's name would be archived into its own
section's archive directory, and is kept out.
-/

set_option autoImplicit false

namespace ClaimStore.FileSystem.Disk

variable {d d1 e : Disk} {P : Place} {a i i1 i2 : String}

/-- Two steps commute from `d`: each answers after the other as it does alone, and both orders
leave the same tree. -/
def Commute {V : Type} (f g : Disk → V × Disk) (d : Disk) : Prop :=
  (g (f d).2).1 = (g d).1 ∧ (f (g d).2).1 = (f d).1 ∧ (g (f d).2).2.Same (f (g d).2).2

namespace Commute

variable {V : Type} {f g f' g' : Disk → V × Disk}

theorem symm (h : Commute f g d) : Commute g f d := ⟨h.2.1, h.1, h.2.2.symm⟩

theorem of_fixed (hf : (f d).2 = d) (hg : (g d).2 = d) : Commute f g d := by
  refine ⟨by rw [hf], by rw [hg], ?_⟩
  rw [hf, hg, hf]
  exact Same.refl d

theorem of_idle {v : V} (hf : ∀ e, f e = (v, e)) : Commute f g d := by
  refine ⟨by rw [hf], by rw [hf, hf], ?_⟩
  rw [hf, hf]
  exact Same.refl _

theorem of_eq (h1 : f d = f' d1) (h2 : g d = g' d1) (h3 : g (f' d1).2 = g' (f' d1).2)
    (h4 : f (g' d1).2 = f' (g' d1).2) (h : Commute f' g' d1) : Commute f g d := by
  unfold Commute at h ⊢
  rw [h1, h2, h3, h4]
  exact h

end Commute

theorem Confined.commute {V : Type} {f g : Disk → V × Disk} {F G Wf Wg : Place → Prop}
    (hf : Confined f F Wf) (hg : Confined g G Wg) (hfg : ∀ q, Wf q → ¬ G q)
    (hgf : ∀ q, Wg q → ¬ F q) (d : Disk) : Commute f g d :=
  hf.swap hg hfg hgf d

theorem not_moveZone {X s t q : Place} (hX : X <+: q) (hs : ¬ X <+: s ∧ ¬ s <+: X)
    (ht : ¬ X <+: t ∧ ¬ t <+: X) : ¬ MoveZone s t q := by
  rintro (h | h | h | h)
  · exact hs.1 (hX.trans h)
  · exact ht.1 (hX.trans h)
  · rcases List.prefix_or_prefix_of_prefix hX h with h' | h'
    exacts [hs.1 h', hs.2 h']
  · rcases List.prefix_or_prefix_of_prefix hX h with h' | h'
    exacts [ht.1 h', ht.2 h']

/-! ## Walking and moving -/

theorem stat_isSome {p : Place} :
    (d.stat p).toOption.isSome = true ↔ d.reach p = .ok () ∧ d.node? p ≠ none := by
  unfold stat lookup
  cases hr : d.reach p with
  | error e => simp [bind, Except.bind, Except.toOption]
  | ok u =>
    cases hn : d.node? p <;>
      simp [bind, Except.bind, pure, Except.pure, Except.toOption, throw, throwThe,
        MonadExceptOf.throw]

theorem reach_of_rename_ok {src dst : Place} (h : d.rename src dst = .ok d1) :
    d.reach src = .ok () := by
  unfold rename at h
  cases hr : d.reach src with
  | error e => simp [hr, bind, Except.bind] at h
  | ok u => rfl

theorem rename_ne_notFound {src dst : Place} (hrs : d.reach src = .ok ())
    (hrd : d.reach dst = .ok ()) (hn : d.node? src ≠ none) :
    d.rename src dst ≠ .error .notFound := by
  obtain ⟨n, hn⟩ := Option.ne_none_iff_exists'.1 hn
  unfold rename
  simp only [hrs, hrd, hn, bind, Except.bind]
  split
  · simp [pure, Except.pure]
  · split
    · simp [throw, throwThe, MonadExceptOf.throw]
    · rcases n with _ | j <;> rcases d.node? dst with _ | _ | k <;>
        simp [throw, throwThe, MonadExceptOf.throw, pure, Except.pure]
      split <;> simp [throw, throwThe, MonadExceptOf.throw, pure, Except.pure]

theorem rename_ok_of_empty {src dst : Place} {n : Node} (hrs : d.reach src = .ok ())
    (hrd : d.reach dst = .ok ()) (hsrc : d.node? src = some n) (hpre : ¬ src <+: dst)
    (hdst : d.node? dst = none) : ∃ d', d.rename src dst = .ok d' := by
  have hne : src ≠ dst := fun h => hpre (h ▸ List.prefix_refl _)
  have hpre' : src.isPrefixOf dst = false := by
    rw [Bool.eq_false_iff]
    exact fun h => hpre (List.isPrefixOf_iff_prefix.1 h)
  unfold rename
  simp only [hrs, hrd, hsrc, hdst, bind, Except.bind, if_neg hne, hpre', Bool.false_eq_true,
    if_false]
  cases n <;> exact ⟨_, rfl⟩

theorem moveStep_of_missing {src dst : Place} (hrs : d.reach src = .ok ())
    (hrd : d.reach dst = .ok ()) (hn : d.node? src = none) : moveStep src dst d = (.ok false, d) := by
  simp [moveStep, rename, hrs, hrd, hn, bind, Except.bind, settle, throw, throwThe,
    MonadExceptOf.throw]

theorem reach_sibling (d : Disk) (P : Place) (x y : String) :
    d.reach (P ++ [x]) = d.reach (P ++ [y]) := by
  unfold reach
  simp only [List.length_append, List.length_singleton]
  refine forM_congr_mem _ fun n hn => ?_
  simp only [List.mem_drop_iff_getElem, List.getElem_range, List.length_range] at hn
  obtain ⟨k, hk, rfl⟩ := hn
  rw [List.take_append_of_le_length (by omega), List.take_append_of_le_length (by omega)]

theorem reach_below (hL : d.reach (P ++ [i]) = .ok ()) (hA : d.node? (P ++ [a]) = some .dir) :
    d.reach (P ++ [a, i]) = .ok () := by
  rw [reach_eq_ok] at hL ⊢
  intro k hk hkl
  simp only [List.length_append, List.length_cons, List.length_nil] at hkl
  by_cases hkP : k ≤ P.length
  · have := hL k hk (by simp; omega)
    rwa [List.take_append_of_le_length (by omega)] at this ⊢
  · rw [show k = (P ++ [a]).length by simp; omega, show P ++ [a, i] = (P ++ [a]) ++ [i] by simp,
      List.take_left]
    exact hA

/-- Making a directory leaves a directory there. -/
theorem makeDirs_node_self {p : Place} (hp : p ≠ []) (h : d.makeDirs p = .ok d1) :
    d1.node? p = some .dir := by
  unfold makeDirs at h
  split at h
  · cases h
    assumption
  · cases h
  · next hnone =>
    dsimp only at h
    split at h
    · cases h
    · cases h
      have hmem : p.length ∈ ((List.range (p.length + 1)).drop 1).filter
          fun n => (d.node? (p.take n)).isNone := by
        have := List.length_pos_iff.2 hp
        simp only [List.mem_filter, List.take_length, hnone, Option.isNone_none, and_true,
          List.mem_drop_iff_getElem, List.getElem_range, List.length_range]
        exact ⟨p.length - 1, by omega, by omega⟩
      rw [node?_foldl_set_dir, if_pos ⟨hp, p.length, hmem, (List.take_length).symm⟩]

/-! ## Archiving an entry -/

/-- Archiving the entry at `L` to `D` in the archive directory `A`: the entry moves, the
directory being made first when the move finds something missing and the entry is there; an
entry already gone is left; a failure leaves the disk as it was. -/
def archiveStep (L A D : Place) (d : Disk) : Except IoError Bool × Disk :=
  match d.rename L D with
  | .ok d' => (.ok true, d')
  | .error .notFound =>
    if (d.stat L).toOption.isSome then
      match d.makeDirs A >>= fun d1 => d1.rename L D with
      | .ok d2 => (.ok true, d2)
      | .error e => (.error e, d)
    else (.ok false, d)
  | .error e => (.error e, d)

/-- What archiving the entry `P ++ [i]` of a directory may change: what lies at or below it or
its archive place, and the archive directory. -/
def ArchiveWrites (P : Place) (a i : String) (q : Place) : Prop :=
  P ++ [i] <+: q ∨ P ++ [a, i] <+: q ∨ q = P ++ [a]

theorem archiveWrites_read {q : Place} (h : ArchiveWrites P a i q) :
    MoveZone (P ++ [i]) (P ++ [a, i]) q := by
  rcases h with h | h | rfl
  · exact .inr (.inr (.inl h))
  · exact .inr (.inr (.inr h))
  · exact .inr (.inl ⟨[i], by simp⟩)

theorem dirs_above_sibling (hL : d.reach (P ++ [i]) = .ok ()) :
    ∀ k, 0 < k → k < (P ++ [a]).length → d.node? ((P ++ [a]).take k) = some .dir := by
  intro k hk hkl
  simp only [List.length_append, List.length_singleton] at hkl
  have := (reach_eq_ok d _).1 hL k hk (by simp; omega)
  rwa [List.take_append_of_le_length (by omega)] at this ⊢

theorem archiveStep_frame (P : Place) (a i : String) (d : Disk) :
    (archiveStep (P ++ [i]) (P ++ [a]) (P ++ [a, i]) d).2.SameOn
      (fun q => ¬ ArchiveWrites P a i q) d := by
  unfold archiveStep
  split
  · next d' h =>
    exact (rename_frame h).mono fun q hq => ⟨fun h => hq (.inl h), fun h => hq (.inr (.inl h))⟩
  · split
    · next hex =>
      split
      · next d2 h =>
        cases hm : d.makeDirs (P ++ [a]) with
        | error e => simp [hm, bind, Except.bind] at h
        | ok d1 =>
          simp only [hm, bind, Except.bind] at h
          -- the directory is made alone, since every place above it is there
          have hmade := makeDirs_frame (dirs_above_sibling (stat_isSome.1 hex).1) hm
          exact ((rename_frame h).mono fun q hq =>
              ⟨fun h => hq (.inl h), fun h => hq (.inr (.inl h))⟩).trans
            (hmade.mono fun q hq h => hq (.inr (.inr h)))
      · exact SameOn.refl _ _
    · exact SameOn.refl _ _
  · exact SameOn.refl _ _

theorem archiveStep_reads (P : Place) (a i : String)
    (h : d.SameOn (MoveZone (P ++ [i]) (P ++ [a, i])) e) :
    (archiveStep (P ++ [i]) (P ++ [a]) (P ++ [a, i]) d).1 =
        (archiveStep (P ++ [i]) (P ++ [a]) (P ++ [a, i]) e).1 ∧
      (archiveStep (P ++ [i]) (P ++ [a]) (P ++ [a, i]) d).2.SameOn (ArchiveWrites P a i)
        (archiveStep (P ++ [i]) (P ++ [a]) (P ++ [a, i]) e).2 := by
  have hW : ∀ q, ArchiveWrites P a i q → MoveZone (P ++ [i]) (P ++ [a, i]) q :=
    fun _ => archiveWrites_read
  unfold archiveStep
  rcases (h.rename fun _ hq => hq).cases with ⟨d', e', hd, he, hde⟩ | ⟨err, hd, he⟩
  · rw [hd, he]
    exact ⟨rfl, hde.mono hW⟩
  rw [hd, he]
  cases err
  case notFound =>
    dsimp only
    rw [h.stat fun q hq => .inl hq]
    split
    · -- the directory is made and the move tried again, alike on both
      have hAD : P ++ [a] <+: P ++ [a, i] := ⟨[i], by simp⟩
      have hagain := Agree.bind (h.makeDirs fun q hq => .inr (.inl (hq.trans hAD)))
        fun d1 e1 h1 => h1.rename fun _ hq => hq
      rcases hagain.cases with ⟨d2, e2, hd2, he2, h2⟩ | ⟨err, hd2, he2⟩
      · rw [hd2, he2]
        exact ⟨rfl, h2.mono hW⟩
      · rw [hd2, he2]
        exact ⟨rfl, h.mono hW⟩
    · exact ⟨rfl, h.mono hW⟩
  all_goals exact ⟨rfl, h.mono hW⟩

theorem archiveStep_confined (P : Place) (a i : String) :
    Confined (archiveStep (P ++ [i]) (P ++ [a]) (P ++ [a, i])) (MoveZone (P ++ [i]) (P ++ [a, i]))
      (ArchiveWrites P a i) :=
  ⟨fun _ => archiveWrites_read, archiveStep_frame P a i, fun _ _ h => archiveStep_reads P a i h⟩

theorem archiveStep_of_dir (hA : d.node? (P ++ [a]) = some .dir) :
    archiveStep (P ++ [i]) (P ++ [a]) (P ++ [a, i]) d = moveStep (P ++ [i]) (P ++ [a, i]) d := by
  unfold archiveStep moveStep
  cases hmv : d.rename (P ++ [i]) (P ++ [a, i]) with
  | ok d' => rfl
  | error err =>
    cases err
    case notFound =>
      dsimp only
      rw [if_neg]
      · rfl
      intro hex
      obtain ⟨hL, hn⟩ := stat_isSome.1 hex
      exact rename_ne_notFound hL (reach_below hL hA) hn hmv
    all_goals rfl

/-- With a file where the archive directory belongs, archiving leaves the disk as it was. -/
theorem archiveStep_of_file {j : Nat} (hA : d.node? (P ++ [a]) = some (.file j)) :
    (archiveStep (P ++ [i]) (P ++ [a]) (P ++ [a, i]) d).2 = d := by
  unfold archiveStep
  cases hmv : d.rename (P ++ [i]) (P ++ [a, i]) with
  | ok d' =>
    -- the move would have walked through the archive directory
    have hdir := (reach_eq_ok d _).1 (rename_eq_ok hmv).1 (P ++ [a]).length (by simp) (by simp)
    rw [show P ++ [a, i] = (P ++ [a]) ++ [i] by simp, List.take_left, hA] at hdir
    cases hdir
  | error err =>
    cases err
    case notFound =>
      have hm : d.makeDirs (P ++ [a]) = .error .alreadyExists := by
        unfold makeDirs
        rw [hA]
        rfl
      dsimp only
      split
      · simp [hm, bind, Except.bind]
      · rfl
    all_goals rfl

theorem archiveStep_of_unreachable (hL : d.reach (P ++ [i]) ≠ .ok ()) :
    (archiveStep (P ++ [i]) (P ++ [a]) (P ++ [a, i]) d).2 = d := by
  unfold archiveStep
  cases hmv : d.rename (P ++ [i]) (P ++ [a, i]) with
  | ok d' => exact absurd (reach_of_rename_ok hmv) hL
  | error err =>
    cases err
    case notFound =>
      dsimp only
      rw [if_neg fun hex => hL (stat_isSome.1 hex).1]
    all_goals rfl

/-! ## Two entries of one directory -/

section Siblings

variable (hi : i1 ≠ i2) (ha1 : a ≠ i1) (ha2 : a ≠ i2)
include hi ha1 ha2

theorem moveStep_siblings_commute (d : Disk) :
    Commute (moveStep (P ++ [i1]) (P ++ [a, i1])) (moveStep (P ++ [i2]) (P ++ [a, i2])) d := by
  refine Confined.commute (moveStep_confined _ _) (moveStep_confined _ _) ?_ ?_ d
  · rintro q (h | h)
    · exact not_moveZone h (by simp [hi, Ne.symm hi]) (by simp [ha1, Ne.symm ha1])
    · exact not_moveZone h (by simp [ha2, Ne.symm ha2]) (by simp [hi, Ne.symm hi])
  · rintro q (h | h)
    · exact not_moveZone h (by simp [hi, Ne.symm hi]) (by simp [ha2, Ne.symm ha2])
    · exact not_moveZone h (by simp [ha1, Ne.symm ha1]) (by simp [hi, Ne.symm hi])

theorem moveStep_keeps_sibling (d : Disk) :
    (moveStep (P ++ [i2]) (P ++ [a, i2]) d).2.SameOn (MoveZone (P ++ [i1]) (P ++ [a, i1])) d := by
  refine ((moveStep_confined _ _).frame d).mono fun q hq hw => ?_
  rcases hw with h | h
  · exact not_moveZone h (by simp [hi, Ne.symm hi]) (by simp [ha2, Ne.symm ha2]) hq
  · exact not_moveZone h (by simp [ha1, Ne.symm ha1]) (by simp [hi, Ne.symm hi]) hq

end Siblings

theorem archiveDir_not_above (hai : a ≠ i) : ¬ P ++ [a] <+: P ++ [i] := by
  simp [hai]

theorem makeDirs_archive (hL : d.reach (P ++ [i]) = .ok ()) (hA : d.node? (P ++ [a]) = none) :
    ∃ d1, d.makeDirs (P ++ [a]) = .ok d1 ∧ d1.node? (P ++ [a]) = some .dir ∧
      d1.SameOn (· ≠ P ++ [a]) d := by
  obtain ⟨d1, hm⟩ := makeDirs_ok (dirs_above_sibling hL) fun j h => by rw [hA] at h; cases h
  exact ⟨d1, hm, makeDirs_node_self (by simp) hm, makeDirs_frame (dirs_above_sibling hL) hm⟩

/-- On a sound disk whose archive directory is missing, archiving an entry that is there makes
the directory and moves the entry into it; an entry that is not there is left. -/
theorem archiveStep_of_missing (hs : d.Sound) (hL : d.reach (P ++ [i]) = .ok ())
    (hA : d.node? (P ++ [a]) = none) (hai : a ≠ i) (hm : d.makeDirs (P ++ [a]) = .ok d1)
    (hd1A : d1.node? (P ++ [a]) = some .dir) (hd1 : d1.SameOn (· ≠ P ++ [a]) d) :
    archiveStep (P ++ [i]) (P ++ [a]) (P ++ [a, i]) d =
      if d.node? (P ++ [i]) = none then (.ok false, d) else moveStep (P ++ [i]) (P ++ [a, i]) d1 := by
  have hPD : P ++ [a, i] = (P ++ [a]) ++ [i] := by simp
  have hrD : d.reach (P ++ [a, i]) = .error .notFound := by
    refine reach_of_missing (m := (P ++ [a]).length) (by simp) (by simp) (fun k hk hkm => ?_) ?_
    · rw [hPD, List.take_append_of_le_length (by omega)]
      exact dirs_above_sibling hL k hk hkm
    · rw [hPD, List.take_left, hA]
  have hmv : d.rename (P ++ [i]) (P ++ [a, i]) = .error .notFound := by
    simp [rename, hL, hrD, bind, Except.bind]
  unfold archiveStep
  rw [hmv]
  dsimp only
  by_cases hn : d.node? (P ++ [i]) = none
  · rw [if_pos hn, if_neg fun hex => (stat_isSome.1 hex).2 hn]
  rw [if_neg hn, if_pos (stat_isSome.2 ⟨hL, hn⟩)]
  obtain ⟨n, hn'⟩ := Option.ne_none_iff_exists'.1 hn
  have hL1 : d1.reach (P ++ [i]) = .ok () := by
    rw [hd1.reach fun q hq hqA => archiveDir_not_above hai (hqA ▸ hq)]
    exact hL
  have hD : d.node? (P ++ [a, i]) = none := by
    cases hDn : d.node? (P ++ [a, i]) with
    | none => rfl
    | some m =>
      have := hs.above _ m hDn (P ++ [a]).length (by simp)
      rw [hPD, List.take_left, hA] at this
      cases this
  obtain ⟨d2, h2⟩ := rename_ok_of_empty hL1 (reach_below hL1 hd1A)
    ((hd1.node _ fun h => hai (by simpa using h.symm)).trans hn') (by simp [hai, Ne.symm hai])
    ((hd1.node _ fun h => by simp at h).trans hD)
  simp [hm, h2, bind, Except.bind, moveStep, settle]

section Siblings

variable (hi : i1 ≠ i2) (ha1 : a ≠ i1) (ha2 : a ≠ i2)
include hi ha1 ha2

/-- Of two entries of a directory with no archive directory, the first one gone: archiving it
finds nothing before the second is archived, and nothing after. -/
theorem archiveStep_commute_of_gone (hs : d.Sound) (hL : d.reach (P ++ [i1]) = .ok ())
    (hA : d.node? (P ++ [a]) = none) (hn1 : d.node? (P ++ [i1]) = none)
    (hn2 : d.node? (P ++ [i2]) ≠ none) :
    Commute (archiveStep (P ++ [i1]) (P ++ [a]) (P ++ [a, i1]))
      (archiveStep (P ++ [i2]) (P ++ [a]) (P ++ [a, i2])) d := by
  obtain ⟨d1, hm, hd1A, hd1⟩ := makeDirs_archive hL hA
  have hL2 : d.reach (P ++ [i2]) = .ok () := by rwa [reach_sibling d P i2 i1]
  have hf : archiveStep (P ++ [i1]) (P ++ [a]) (P ++ [a, i1]) d = (.ok false, d) := by
    rw [archiveStep_of_missing hs hL hA ha1 hm hd1A hd1, if_pos hn1]
  have hg : archiveStep (P ++ [i2]) (P ++ [a]) (P ++ [a, i2]) d =
      moveStep (P ++ [i2]) (P ++ [a, i2]) d1 := by
    rw [archiveStep_of_missing hs hL2 hA ha2 hm hd1A hd1, if_neg hn2]
  -- after the second entry moved, the first is still missing, its way and the directory there
  have hX := moveStep_keeps_sibling (P := P) hi ha1 ha2 d1
  have hXA : (moveStep (P ++ [i2]) (P ++ [a, i2]) d1).2.node? (P ++ [a]) = some .dir :=
    (hX.node _ (.inr (.inl ⟨[i1], by simp⟩))).trans hd1A
  have hXL : (moveStep (P ++ [i2]) (P ++ [a, i2]) d1).2.reach (P ++ [i1]) = .ok () := by
    rw [hX.reach fun q hq => .inl hq, hd1.reach fun q hq hqA => archiveDir_not_above ha1 (hqA ▸ hq)]
    exact hL
  have hfX : archiveStep (P ++ [i1]) (P ++ [a]) (P ++ [a, i1])
      (moveStep (P ++ [i2]) (P ++ [a, i2]) d1).2 = (.ok false, (moveStep (P ++ [i2]) (P ++ [a, i2]) d1).2) := by
    rw [archiveStep_of_dir hXA]
    refine moveStep_of_missing hXL (reach_below hXL hXA) ?_
    rw [hX.node _ (.inl (List.prefix_refl _)), hd1.node _ fun h => ha1 (by simpa using h.symm), hn1]
  refine ⟨by rw [hf], by rw [hg, hfX, hf], ?_⟩
  rw [hf, hg, hfX]
  exact Same.refl _

/-- Two entries of a directory with no archive directory: each one there makes the directory
and moves in, and either order ends alike. -/
theorem archiveStep_siblings_of_missing (hs : d.Sound) (hA : d.node? (P ++ [a]) = none) :
    Commute (archiveStep (P ++ [i1]) (P ++ [a]) (P ++ [a, i1]))
      (archiveStep (P ++ [i2]) (P ++ [a]) (P ++ [a, i2])) d := by
  by_cases hL : d.reach (P ++ [i1]) = .ok ()
  swap
  · -- neither entry can be walked to: nothing moves
    exact Commute.of_fixed (archiveStep_of_unreachable hL)
      (archiveStep_of_unreachable (by rwa [reach_sibling d P i2 i1]))
  have hL2 : d.reach (P ++ [i2]) = .ok () := by rwa [reach_sibling d P i2 i1]
  obtain ⟨d1, hm, hd1A, hd1⟩ := makeDirs_archive hL hA
  have h1 := archiveStep_of_missing hs hL hA ha1 hm hd1A hd1
  have h2 := archiveStep_of_missing hs hL2 hA ha2 hm hd1A hd1
  by_cases hn1 : d.node? (P ++ [i1]) = none <;> by_cases hn2 : d.node? (P ++ [i2]) = none
  · exact Commute.of_fixed (by rw [h1, if_pos hn1]) (by rw [h2, if_pos hn2])
  · exact archiveStep_commute_of_gone hi ha1 ha2 hs hL hA hn1 hn2
  · exact (archiveStep_commute_of_gone (Ne.symm hi) ha2 ha1 hs hL2 hA hn2 hn1).symm
  · -- both move, after the directory is made
    rw [if_neg hn1] at h1
    rw [if_neg hn2] at h2
    have hA1 : (moveStep (P ++ [i1]) (P ++ [a, i1]) d1).2.node? (P ++ [a]) = some .dir :=
      ((moveStep_keeps_sibling (Ne.symm hi) ha2 ha1 d1).node _ (.inr (.inl ⟨[i2], by simp⟩))).trans hd1A
    have hA2 : (moveStep (P ++ [i2]) (P ++ [a, i2]) d1).2.node? (P ++ [a]) = some .dir :=
      ((moveStep_keeps_sibling hi ha1 ha2 d1).node _ (.inr (.inl ⟨[i1], by simp⟩))).trans hd1A
    exact Commute.of_eq h1 h2 (archiveStep_of_dir hA1) (archiveStep_of_dir hA2)
      (moveStep_siblings_commute hi ha1 ha2 d1)

theorem archiveStep_siblings_commute (hs : d.Sound) :
    Commute (archiveStep (P ++ [i1]) (P ++ [a]) (P ++ [a, i1]))
      (archiveStep (P ++ [i2]) (P ++ [a]) (P ++ [a, i2])) d := by
  rcases hA : d.node? (P ++ [a]) with _ | _ | j
  · exact archiveStep_siblings_of_missing hi ha1 ha2 hs hA
  · -- the directory is there: two moves
    have hA1 : (moveStep (P ++ [i1]) (P ++ [a, i1]) d).2.node? (P ++ [a]) = some .dir :=
      ((moveStep_keeps_sibling (Ne.symm hi) ha2 ha1 d).node _ (.inr (.inl ⟨[i2], by simp⟩))).trans hA
    have hA2 : (moveStep (P ++ [i2]) (P ++ [a, i2]) d).2.node? (P ++ [a]) = some .dir :=
      ((moveStep_keeps_sibling hi ha1 ha2 d).node _ (.inr (.inl ⟨[i1], by simp⟩))).trans hA
    exact Commute.of_eq (archiveStep_of_dir hA) (archiveStep_of_dir hA) (archiveStep_of_dir hA1)
      (archiveStep_of_dir hA2) (moveStep_siblings_commute hi ha1 ha2 d)
  · exact Commute.of_fixed (archiveStep_of_file hA) (archiveStep_of_file hA)

end Siblings

end ClaimStore.FileSystem.Disk

namespace ClaimStore

open ClaimStore.Claim ClaimStore.FileSystem ClaimStore.FileSystem.Disk

/-- What destroying a claim does to the disk: its file archived (while archiving) or unlinked,
the verdict (moved or unlinked, nothing done, or the error) and the disk after; a failure leaves
the disk as it was. -/
def reclaimStep (archiving : Bool) (path : String) (d : Disk) : Except IoError Bool × Disk :=
  if archiving then
    match archiveFile d path with
    | .ok (moved, d') => (.ok moved, d')
    | .error e => (.error e, d)
  else settle d (d.removeFileAt path)

section Claims

variable {box : Container} {p : Place} {r : Resource}

theorem reclaimStep_remove (hp : place? box.root = some p) (hr : r.Plain) (d : Disk) :
    reclaimStep false (box.claimPath r) d = removeStep (livePlace p r) d := by
  simp [reclaimStep, removeStep, removeFileAt_claimPath hp hr]

theorem reclaimStep_of_archived (hp : place? box.root = some p) (hr : r.Plain)
    (hsec : r.sectionName = Archive.dirName) (d : Disk) :
    reclaimStep true (box.claimPath r) d = (.ok false, d) := by
  simp [reclaimStep, archiveFile_of_archived hp hr hsec]

/-- Archiving a claim's file outside a section named like the archive directory is archiving
its live place into that section's archive directory. -/
theorem reclaimStep_archive (hp : place? box.root = some p) (hr : r.Plain)
    (hsec : r.sectionName ≠ Archive.dirName) (d : Disk) :
    reclaimStep true (box.claimPath r) d =
      archiveStep ((p ++ [r.sectionName]) ++ [r.id]) ((p ++ [r.sectionName]) ++ [Archive.dirName])
        ((p ++ [r.sectionName]) ++ [Archive.dirName, r.id]) d := by
  have hL : (p ++ [r.sectionName]) ++ [r.id] = livePlace p r := by simp [livePlace]
  have hD : (p ++ [r.sectionName]) ++ [Archive.dirName, r.id] = archivePlace p r := by
    simp [archivePlace]
  have hA : (p ++ [r.sectionName]) ++ [Archive.dirName] = p ++ [r.sectionName, Archive.dirName] := by
    simp
  have hex : d.existsAt (box.claimPath r) = (d.stat (livePlace p r)).toOption.isSome := by
    simp [Disk.existsAt, Disk.nodeAt?, Container.claimPath_place hp hr]
  rw [hL, hD, hA]
  unfold reclaimStep archiveFile archiveStep
  rw [Container.isArchived_claimPath hp hr, Container.pathFor?_claimPath hp hr]
  simp only [beq_iff_eq, hsec, if_false, if_true, renameAt_claimPath hp hr,
    Container.parent?_archivePath hp hr, makeDirsAt_archiveDir hp hr, hex]
  cases d.rename (livePlace p r) (archivePlace p r) with
  | ok d' => rfl
  | error err =>
    cases err
    case notFound =>
      dsimp only
      cases d.stat (livePlace p r) with
      | error e => rfl
      | ok n =>
        simp only [Except.toOption, Option.isSome_some, Bool.not_true, Bool.false_eq_true,
          if_false, if_true, bind, Except.bind]
        cases d.makeDirs (p ++ [r.sectionName, Archive.dirName]) with
        | error e => rfl
        | ok d1 =>
          dsimp only
          cases d1.rename (livePlace p r) (archivePlace p r) <;> rfl
    all_goals rfl

theorem reclaimStep_same (hp : place? box.root = some p) (hr : r.Plain) (archiving : Bool)
    {d e : Disk} (h : d.Same e) :
    (reclaimStep archiving (box.claimPath r) d).1 = (reclaimStep archiving (box.claimPath r) e).1 ∧
      (reclaimStep archiving (box.claimPath r) d).2.Same
        (reclaimStep archiving (box.claimPath r) e).2 := by
  cases archiving
  · rw [reclaimStep_remove hp hr, reclaimStep_remove hp hr]
    exact (removeStep_confined _).same h
  · by_cases hs : r.sectionName = Archive.dirName
    · rw [reclaimStep_of_archived hp hr hs, reclaimStep_of_archived hp hr hs]
      exact ⟨rfl, h⟩
    · rw [reclaimStep_archive hp hr hs, reclaimStep_archive hp hr hs]
      exact (archiveStep_confined _ _ _).same h

end Claims

theorem Layout.sections_apart {cs : List Container} (hL : Layout cs) {b1 b2 : Container}
    (hb1 : b1 ∈ cs) (hb2 : b2 ∈ cs) {p1 p2 : Place} (hp1 : place? b1.root = some p1)
    (hp2 : place? b2.root = some p2) {s1 s2 : String} (hsec : p1 ++ [s1] ≠ p2 ++ [s2])
    (u v : Place) : ¬ (p1 ++ [s1]) ++ u <+: (p2 ++ [s2]) ++ v := by
  intro h
  rw [List.append_assoc, List.append_assoc, List.singleton_append, List.singleton_append] at h
  obtain ⟨-, rfl, h'⟩ := hL.prefix_same hb1 hb2 hp1 hp2 h
  rw [List.cons_prefix_cons] at h'
  exact hsec (by rw [h'.1])

/-- Destroying the files of two different claims of a layout's containers, neither with an id
named like the archive directory while archiving, commutes on a sound disk. -/
theorem reclaimStep_commute {cs : List Container} (hL : Layout cs) {b1 b2 : Container}
    (hb1 : b1 ∈ cs) (hb2 : b2 ∈ cs) {p1 p2 : Place} (hp1 : place? b1.root = some p1)
    (hp2 : place? b2.root = some p2) {r1 r2 : Resource} (hr1 : r1.Plain) (hr2 : r2.Plain)
    (hn1 : b1.name = r1.container) (hn2 : b2.name = r2.container) (hk : r1.key ≠ r2.key)
    {archiving : Bool} (hid1 : archiving = true → r1.id ≠ Archive.dirName)
    (hid2 : archiving = true → r2.id ≠ Archive.dirName) {d : Disk} (hs : d.Sound) :
    Commute (reclaimStep archiving (b1.claimPath r1)) (reclaimStep archiving (b2.claimPath r2))
      d := by
  by_cases hsec : p1 ++ [r1.sectionName] = p2 ++ [r2.sectionName]
  · -- one section of one container: the ids differ
    obtain ⟨rfl, rfl, hS⟩ := hL.eq_same hb1 hb2 hp1 hp2 hsec
    have hS' : r1.sectionName = r2.sectionName := by simpa using hS
    have hi : r1.id ≠ r2.id := fun h => hk (by simp [Resource.key, ← hn1, ← hn2, hS', h])
    cases archiving
    · rw [funext (reclaimStep_remove hp1 hr1), funext (reclaimStep_remove hp1 hr2)]
      refine Confined.commute (removeStep_confined _) (removeStep_confined _) ?_ ?_ d
      · intro q hq h2
        exact not_moveZone (s := livePlace p1 r2) (t := livePlace p1 r2) hq
          (by simp [livePlace, hS', hi, Ne.symm hi]) (by simp [livePlace, hS', hi, Ne.symm hi])
          (h2.elim .inl fun h => .inr (.inr (.inl h)))
      · intro q hq h1
        exact not_moveZone (s := livePlace p1 r1) (t := livePlace p1 r1) hq
          (by simp [livePlace, hS', hi, Ne.symm hi]) (by simp [livePlace, hS', hi, Ne.symm hi])
          (h1.elim .inl fun h => .inr (.inr (.inl h)))
    · by_cases hs1 : r1.sectionName = Archive.dirName
      · exact Commute.of_idle (reclaimStep_of_archived hp1 hr1 hs1)
      rw [funext (reclaimStep_archive hp1 hr1 hs1), funext (reclaimStep_archive hp1 hr2 (hS' ▸ hs1)),
        hS']
      exact archiveStep_siblings_commute hi (Ne.symm (hid1 rfl)) (Ne.symm (hid2 rfl)) hs
  · -- different sections: nothing one step changes is read by the other
    have h12 := hL.sections_apart hb1 hb2 hp1 hp2 hsec
    have h21 := hL.sections_apart hb2 hb1 hp2 hp1 (Ne.symm hsec)
    cases archiving
    · rw [funext (reclaimStep_remove hp1 hr1), funext (reclaimStep_remove hp2 hr2)]
      have hL1 : livePlace p1 r1 = (p1 ++ [r1.sectionName]) ++ [r1.id] := by simp [livePlace]
      have hL2 : livePlace p2 r2 = (p2 ++ [r2.sectionName]) ++ [r2.id] := by simp [livePlace]
      refine Confined.commute (removeStep_confined _) (removeStep_confined _) ?_ ?_ d
      · intro q hq h2
        rw [hL1] at hq
        rw [hL2] at h2
        exact not_moveZone (t := (p2 ++ [r2.sectionName]) ++ [r2.id]) hq ⟨h12 _ _, h21 _ _⟩
          ⟨h12 _ _, h21 _ _⟩
          (h2.elim .inl fun h => .inr (.inr (.inl h)))
      · intro q hq h1
        rw [hL2] at hq
        rw [hL1] at h1
        exact not_moveZone (t := (p1 ++ [r1.sectionName]) ++ [r1.id]) hq ⟨h21 _ _, h12 _ _⟩
          ⟨h21 _ _, h12 _ _⟩
          (h1.elim .inl fun h => .inr (.inr (.inl h)))
    · by_cases hs1 : r1.sectionName = Archive.dirName
      · exact Commute.of_idle (reclaimStep_of_archived hp1 hr1 hs1)
      by_cases hs2 : r2.sectionName = Archive.dirName
      · exact (Commute.of_idle (reclaimStep_of_archived hp2 hr2 hs2)).symm
      rw [funext (reclaimStep_archive hp1 hr1 hs1), funext (reclaimStep_archive hp2 hr2 hs2)]
      refine Confined.commute (archiveStep_confined _ _ _) (archiveStep_confined _ _ _) ?_ ?_ d
      · rintro q (h | h | rfl)
        · exact not_moveZone h ⟨h12 _ _, h21 _ _⟩ ⟨h12 _ _, h21 _ _⟩
        · exact not_moveZone h ⟨h12 _ _, h21 _ _⟩ ⟨h12 _ _, h21 _ _⟩
        · exact not_moveZone (List.prefix_refl _) ⟨h12 _ _, h21 _ _⟩ ⟨h12 _ _, h21 _ _⟩
      · rintro q (h | h | rfl)
        · exact not_moveZone h ⟨h21 _ _, h12 _ _⟩ ⟨h21 _ _, h12 _ _⟩
        · exact not_moveZone h ⟨h21 _ _, h12 _ _⟩ ⟨h21 _ _, h12 _ _⟩
        · exact not_moveZone (List.prefix_refl _) ⟨h21 _ _, h12 _ _⟩ ⟨h21 _ _, h12 _ _⟩

end ClaimStore
