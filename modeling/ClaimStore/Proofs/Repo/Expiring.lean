import ClaimStore.Proofs.Repo.Reclaiming
import ClaimStore.Proofs.Expiry.Entries
/-!
# Expiring archived files keeps the invariant

An expiration pass works on a container and a disk (`Sweep`): it deletes files, by whatever path
its queue of archived files or its scan of the archive directories names, and updates the
container's queue and age. `Sweep.Deletes` says a pass did no more than that: the container
keeps its name, root, sections and bin, and the disk only lost files. Each phase of a pass
deletes this way, by induction over its recursion, and so does the whole pass.

A pass may delete any file, even one a claim still refers to: unlinking never breaks `Inv`,
which only asks a claim's places to hold its file or nothing.
-/

set_option autoImplicit false

namespace ClaimStore

open ClaimStore.Claim ClaimStore.FileSystem

namespace Sweep

/-- A pass went from `s` to `s'` deleting files only: the container keeps its name, root,
sections and bin, and the disk lost files. -/
structure Deletes (s s' : Sweep) : Prop where
  name : s'.container.name = s.container.name
  root : s'.container.root = s.container.root
  sections : s'.container.sections = s.container.sections
  bin : s'.container.reclaimable = s.container.reclaimable
  unlinked : s.disk.Sound → s.disk.Unlinked s'.disk

theorem Deletes.refl (s : Sweep) : Deletes s s := ⟨rfl, rfl, rfl, rfl, fun _ => .refl _⟩

theorem Deletes.trans {s s' s'' : Sweep} (h : Deletes s s') (h' : Deletes s' s'') :
    Deletes s s'' where
  name := h'.name.trans h.name
  root := h'.root.trans h.root
  sections := h'.sections.trans h.sections
  bin := h'.bin.trans h.bin
  unlinked hs := (h.unlinked hs).trans (h'.unlinked ((h.unlinked hs).sound hs))

theorem Deletes.of_pair {α : Type} {s s' : Sweep} {a : α} {A : α × Sweep} (h : A = (a, s'))
    (hA : Deletes s A.2) : Deletes s s' := by
  subst h
  exact hA

theorem deletes_delete (s : Sweep) (e : Archive.Entry) : Deletes s (s.delete e).2 := by
  unfold delete
  split
  · next d h => exact ⟨rfl, rfl, rfl, rfl, fun hs => Disk.removeFileAt_unlinked hs h⟩
  · exact .refl s

theorem deletes_archived (s : Sweep) (q : Fifo Archive.Entry) :
    Deletes s { s with container := { s.container with archived := q } } :=
  ⟨rfl, rfl, rfl, rfl, fun _ => .refl _⟩

theorem deletes_settle (s : Sweep) (r : Expiry) (oldest : Nat) : Deletes s (s.settle r oldest).2 :=
  ⟨rfl, rfl, rfl, rfl, fun _ => .refl _⟩

theorem deletes_of_ite {s0 s1 : Sweep} {r0 r1 : Expiry} {c : Prop} [Decidable c]
    {A : Expiry × Sweep} (h : (if c then A else (r0, s0)) = (r1, s1)) (hA : Deletes s0 A.2) :
    Deletes s0 s1 := by
  split at h
  · subst h
    exact hA
  · rw [← (Prod.mk.inj h).2]
    exact .refl s0

theorem deletes_fromQueue (threshold toFree now fuel : Nat) (r : Expiry) (s : Sweep) :
    Deletes s (fromQueue threshold toFree now fuel r s).2.2 := by
  fun_induction fromQueue threshold toFree now fuel r s
  case case1 => exact .refl _
  case case2 => exact .refl _
  case case3 s0 head _ _ r1 s1 hfront _ _ _ _ ih =>
    exact (deletes_of_ite hfront ((deletes_archived _ _).trans (deletes_delete _ head))).trans ih
  case case4 s0 head _ _ r1 s1 hfront _ _ _ _ r2 s2 hsettle =>
    exact (deletes_of_ite hfront ((deletes_archived _ _).trans (deletes_delete _ head))).trans
      (Deletes.of_pair hsettle (deletes_settle _ _ _))
  case case5 s0 head _ _ r1 s1 hfront _ _ r2 s2 hsettle =>
    exact (deletes_of_ite hfront ((deletes_archived _ _).trans (deletes_delete _ head))).trans
      (Deletes.of_pair hsettle (deletes_settle _ _ _))
  case case6 s0 head _ _ r1 s1 hfront _ ih =>
    exact (deletes_of_ite hfront ((deletes_archived _ _).trans (deletes_delete _ head))).trans ih

theorem deletes_sweepExpired (threshold : Nat) (overBudget : Bool) (l : List Archive.Entry)
    (acc : Expiry × Sweep × List Archive.Entry × Nat) :
    Deletes acc.2.1 (sweepExpired threshold overBudget l acc).2.1 := by
  fun_induction sweepExpired threshold overBudget l acc
  case case1 => exact .refl _
  case case2 e _ _ s _ _ _ _ _ hdel ih => exact (Deletes.of_pair hdel (deletes_delete s e)).trans ih
  case case3 ih => exact ih

theorem deletes_sweepSpace (probe : Probe) (toFree minUsable : Nat)
    (l : List (Nat × Archive.Entry)) (acc : Expiry × Sweep × Nat) :
    Deletes acc.2.1 (sweepSpace probe toFree minUsable l acc).2.2.1 := by
  fun_induction sweepSpace probe toFree minUsable l acc
  case case1 => exact .refl _
  case case2 => exact .refl _
  case case3 _ e _ _ s _ _ _ _ hdel _ _ _ _ => exact Deletes.of_pair hdel (deletes_delete s e)
  case case4 _ e _ _ s _ _ _ _ hdel _ _ _ _ _ => exact Deletes.of_pair hdel (deletes_delete s e)
  case case5 _ e _ _ s _ _ _ _ hdel _ _ _ _ _ ih =>
    exact (Deletes.of_pair hdel (deletes_delete s e)).trans ih
  case case6 _ e _ _ s _ _ _ _ hdel _ _ ih =>
    exact (Deletes.of_pair hdel (deletes_delete s e)).trans ih

theorem Deletes.of_fromQueue {threshold toFree now fuel : Nat} {r r' : Expiry} {s s' : Sweep}
    {o : Option Expiry} (h : fromQueue threshold toFree now fuel r s = (o, r', s')) :
    Deletes s s' := by
  have h1 := deletes_fromQueue threshold toFree now fuel r s
  rw [h] at h1
  exact h1

theorem Deletes.of_sweepExpired {threshold : Nat} {overBudget : Bool} {l : List Archive.Entry}
    {acc : Expiry × Sweep × List Archive.Entry × Nat} {r : Expiry} {s : Sweep}
    {kept : List Archive.Entry} {oldest : Nat}
    (h : sweepExpired threshold overBudget l acc = (r, s, kept, oldest)) : Deletes acc.2.1 s := by
  have h1 := deletes_sweepExpired threshold overBudget l acc
  rw [h] at h1
  exact h1

theorem Deletes.of_sweepSpace {probe : Probe} {toFree minUsable : Nat}
    {l : List (Nat × Archive.Entry)} {acc : Expiry × Sweep × Nat} {o : IoResult Unit} {r : Expiry}
    {s : Sweep} {used : Nat} (h : sweepSpace probe toFree minUsable l acc = (o, r, s, used)) :
    Deletes acc.2.1 s := by
  have h1 := deletes_sweepSpace probe toFree minUsable l acc
  rw [h] at h1
  exact h1

end Sweep

theorem Container.expire_deletes (c : Container) (d : Disk) (probe : Probe) (now retention : Nat) :
    Sweep.Deletes ⟨c, d⟩
      ⟨(c.expire d probe now retention).2.1, (c.expire d probe now retention).2.2⟩ := by
  fun_cases Container.expire c d probe now retention
  case case1 => exact .refl _
  case case2 => exact .refl _
  case case3 hq => exact Sweep.Deletes.of_fromQueue hq
  case case4 hq _ _ _ _ _ hexp _ _ _ _ _ hspace =>
    exact ((Sweep.Deletes.of_fromQueue hq).trans (Sweep.Deletes.of_sweepExpired hexp)).trans
      (Sweep.Deletes.of_sweepSpace hspace)
  case case5 hq _ _ _ _ _ hexp _ _ _ _ _ _ _ _ _ _ _ _ hsettle hspace =>
    exact ((((Sweep.Deletes.of_fromQueue hq).trans (Sweep.Deletes.of_sweepExpired hexp)).trans
      (Sweep.Deletes.of_sweepSpace hspace)).trans (Sweep.deletes_archived _ _)).trans
      (Sweep.Deletes.of_pair hsettle (Sweep.deletes_settle _ _ _))

/-! ## A pass stays in the archive directories

A pass deletes only what its queue or its scan names, and both name archived files: the scan by
construction, the queue because it is filled from scans. So a pass whose queue names archived
places changes the disk at archived places only, and leaves a queue that names archived places.
-/

namespace Sweep

/-- A pass from `s` to `s'` keeps the disk sound and changes it at archived places of the
container only, and a queue naming archived places goes on naming archived places. -/
structure Confined (s s' : Sweep) : Prop where
  root : s'.container.root = s.container.root
  filed : s.container.Filed → s'.container.Filed
  sound : s.disk.Sound → s'.disk.Sound
  node : s.disk.Sound → ∀ p, place? s.container.root = some p → ∀ q,
    (∀ sec n, q ≠ p ++ [sec, Archive.dirName, n]) → s'.disk.node? q = s.disk.node? q

theorem Confined.refl (s : Sweep) : Confined s s := ⟨rfl, id, id, fun _ _ _ _ _ => rfl⟩

theorem Confined.trans {s s' s'' : Sweep} (h : Confined s s') (h' : Confined s' s'') :
    Confined s s'' where
  root := h'.root.trans h.root
  filed hf := h'.filed (h.filed hf)
  sound hs := h'.sound (h.sound hs)
  node hs p hp q hq := by
    rw [h'.node (h.sound hs) p (h.root ▸ hp) q hq, h.node hs p hp q hq]

theorem Confined.of_pair {α : Type} {s s' : Sweep} {a : α} {A : α × Sweep} (h : A = (a, s'))
    (hA : Confined s A.2) : Confined s s' := by
  subst h
  exact hA

/-- An entry at an archived place. -/
def Archived (root : String) (e : Archive.Entry) : Prop :=
  ∃ p sec n, place? root = some p ∧ place? e.path = some (p ++ [sec, Archive.dirName, n])

theorem confined_delete (s : Sweep) {e : Archive.Entry} (he : Archived s.container.root e) :
    Confined s (s.delete e).2 := by
  obtain ⟨p, sec, n, hp, hpath⟩ := he
  unfold delete
  split
  · next d h =>
    rw [Disk.removeFileAt, placeOf_of_place? hpath] at h
    refine ⟨rfl, id, fun hs => (Disk.removeFile_eq_ok hs h).2.1, fun hs p' hp' q hq => ?_⟩
    rw [hp] at hp'
    cases hp'
    rw [(Disk.removeFile_eq_ok hs h).2.2.2 q, if_neg (hq sec n)]
  · exact .refl s

theorem confined_archived (s : Sweep) (q : Fifo Archive.Entry)
    (hq : ∀ e ∈ q.items, e ∈ s.container.archived.items ∨ Archived s.container.root e) :
    Confined s { s with container := { s.container with archived := q } } := by
  refine ⟨rfl, fun hf e he => ?_, id, fun _ _ _ _ _ => rfl⟩
  rcases hq e he with he | he
  · exact hf e he
  · obtain ⟨p, sec, n, hp, hpath⟩ := he
    exact ⟨p, sec, n, hp, hpath⟩

theorem confined_settle (s : Sweep) (r : Expiry) (oldest : Nat) : Confined s (s.settle r oldest).2 :=
  ⟨rfl, id, id, fun _ _ _ _ _ => rfl⟩

theorem confined_of_ite {s0 s1 : Sweep} {r0 r1 : Expiry} {c : Prop} [Decidable c]
    {A : Expiry × Sweep} (h : (if c then A else (r0, s0)) = (r1, s1)) (hA : Confined s0 A.2) :
    Confined s0 s1 := by
  split at h
  · subst h
    exact hA
  · rw [← (Prod.mk.inj h).2]
    exact .refl s0

theorem confined_poll_delete (s : Sweep) {head : Archive.Entry}
    (hpeek : s.container.archived.peek = some head) (hf : s.container.Filed) :
    Confined s (({ s with container := { s.container with
      archived := s.container.archived.poll.2 } } : Sweep).delete head).2 := by
  have hhead : head ∈ s.container.archived.items := by
    simp only [Fifo.peek] at hpeek
    exact List.mem_of_mem_head? hpeek
  exact (confined_archived _ _ fun e he => .inl (List.mem_of_mem_tail he)).trans
    (confined_delete _ (hf head hhead))

theorem confined_fromQueue (threshold toFree now fuel : Nat) (r : Expiry) (s : Sweep) :
    s.container.Filed → Confined s (fromQueue threshold toFree now fuel r s).2.2 := by
  fun_induction fromQueue threshold toFree now fuel r s
  case case1 => exact fun _ => .refl _
  case case2 => exact fun _ => .refl _
  case case3 s0 head hpeek _ r1 s1 hfront _ _ _ _ ih =>
    intro hf
    have h1 := confined_of_ite hfront (confined_poll_delete s0 hpeek hf)
    exact h1.trans (ih (h1.filed hf))
  case case4 s0 head hpeek _ r1 s1 hfront _ _ _ _ r2 s2 hsettle =>
    intro hf
    exact (confined_of_ite hfront (confined_poll_delete s0 hpeek hf)).trans
      (Confined.of_pair hsettle (confined_settle _ _ _))
  case case5 s0 head hpeek _ r1 s1 hfront _ _ r2 s2 hsettle =>
    intro hf
    exact (confined_of_ite hfront (confined_poll_delete s0 hpeek hf)).trans
      (Confined.of_pair hsettle (confined_settle _ _ _))
  case case6 s0 head hpeek _ r1 s1 hfront _ ih =>
    intro hf
    have h1 := confined_of_ite hfront (confined_poll_delete s0 hpeek hf)
    exact h1.trans (ih (h1.filed hf))

theorem confined_sweepExpired (threshold : Nat) (overBudget : Bool) (l : List Archive.Entry)
    (acc : Expiry × Sweep × List Archive.Entry × Nat)
    (hl : ∀ e ∈ l, Archived acc.2.1.container.root e) :
    Confined acc.2.1 (sweepExpired threshold overBudget l acc).2.1 ∧
      ∀ e ∈ (sweepExpired threshold overBudget l acc).2.2.1, e ∈ acc.2.2.1 ∨ e ∈ l := by
  fun_induction sweepExpired threshold overBudget l acc
  case case1 => exact ⟨.refl _, fun e he => .inl he⟩
  case case2 e rest r s kept oldest _ ok s' hdel ih =>
    have h1 := Confined.of_pair hdel (confined_delete s (hl e List.mem_cons_self))
    obtain ⟨h2, hk⟩ := ih fun e' he' => h1.root ▸ hl e' (List.mem_cons_of_mem _ he')
    exact ⟨h1.trans h2, fun e' he' => (hk e' he').imp_right (List.mem_cons_of_mem _)⟩
  case case3 e rest r s kept oldest _ ih =>
    obtain ⟨h2, hk⟩ := ih fun e' he' => hl e' (List.mem_cons_of_mem _ he')
    refine ⟨h2, fun e' he' => ?_⟩
    rcases hk e' he' with h | h
    · -- the entry kept for space, when space is short
      split at h
      · rcases List.mem_append.1 h with h | h
        · exact .inl h
        · exact .inr (by simp_all)
      · exact .inl h
    · exact .inr (List.mem_cons_of_mem _ h)

theorem confined_sweepSpace (probe : Probe) (toFree minUsable : Nat)
    (l : List (Nat × Archive.Entry)) (acc : Expiry × Sweep × Nat)
    (hl : ∀ x ∈ l, Archived acc.2.1.container.root x.2) :
    Confined acc.2.1 (sweepSpace probe toFree minUsable l acc).2.2.1 := by
  fun_induction sweepSpace probe toFree minUsable l acc
  case case1 => exact .refl _
  case case2 => exact .refl _
  case case3 i e rest r s used _ ok s' hdel _ _ _ _ =>
    exact Confined.of_pair hdel (confined_delete s (hl (i, e) List.mem_cons_self))
  case case4 i e rest r s used _ ok s' hdel _ _ _ _ _ =>
    exact Confined.of_pair hdel (confined_delete s (hl (i, e) List.mem_cons_self))
  case case5 i e rest r s used _ ok s' hdel _ _ _ _ _ ih =>
    have h1 := Confined.of_pair hdel (confined_delete s (hl (i, e) List.mem_cons_self))
    exact h1.trans (ih fun x hx => h1.root ▸ hl x (List.mem_cons_of_mem _ hx))
  case case6 i e rest r s used _ ok s' hdel _ _ ih =>
    have h1 := Confined.of_pair hdel (confined_delete s (hl (i, e) List.mem_cons_self))
    exact h1.trans (ih fun x hx => h1.root ▸ hl x (List.mem_cons_of_mem _ hx))

theorem Confined.of_fromQueue {threshold toFree now fuel : Nat} {r r' : Expiry} {s s' : Sweep}
    {o : Option Expiry} (h : fromQueue threshold toFree now fuel r s = (o, r', s'))
    (hf : s.container.Filed) : Confined s s' := by
  have h1 := confined_fromQueue threshold toFree now fuel r s hf
  rw [h] at h1
  exact h1

theorem Confined.of_sweepExpired {threshold : Nat} {overBudget : Bool} {l : List Archive.Entry}
    {r0 : Expiry} {s0 : Sweep} {r : Expiry} {s : Sweep} {kept : List Archive.Entry} {oldest : Nat}
    (h : sweepExpired threshold overBudget l (r0, s0, [], noAge) = (r, s, kept, oldest))
    (hl : ∀ e ∈ l, Archived s0.container.root e) : Confined s0 s ∧ ∀ e ∈ kept, e ∈ l := by
  have h1 := confined_sweepExpired threshold overBudget l (r0, s0, [], noAge) hl
  rw [h] at h1
  exact ⟨h1.1, fun e he => (h1.2 e he).resolve_left List.not_mem_nil⟩

theorem Confined.of_sweepSpace {probe : Probe} {toFree minUsable : Nat}
    {l : List (Nat × Archive.Entry)} {r0 : Expiry} {s0 : Sweep} {o : IoResult Unit} {r : Expiry}
    {s : Sweep} {used : Nat} (h : sweepSpace probe toFree minUsable l (r0, s0, 0) = (o, r, s, used))
    (hl : ∀ x ∈ l, Archived s0.container.root x.2) : Confined s0 s := by
  have h1 := confined_sweepSpace probe toFree minUsable l (r0, s0, 0) hl
  rw [h] at h1
  exact h1

theorem scan_archived {s : Sweep} {root : Place} (hroot : place? s.container.root = some root)
    (hs : s.disk.Sound) : ∀ e ∈ s.scan, Archived s.container.root e := by
  intro e he
  obtain ⟨j, -, n, -, hpath, -⟩ := scan_place hroot hs he
  exact ⟨root, toString j, n, hroot, hpath⟩

theorem mem_foldl_offer {f : Fifo Archive.Entry × Nat → Archive.Entry → Fifo Archive.Entry × Nat}
    (hf : ∀ acc e, ∀ x ∈ (f acc e).1.items, x ∈ acc.1.items ∨ x = e) (l : List Archive.Entry)
    (acc : Fifo Archive.Entry × Nat) :
    ∀ x ∈ (l.foldl f acc).1.items, x ∈ acc.1.items ∨ x ∈ l := by
  induction l generalizing acc with
  | nil => exact fun x hx => .inl hx
  | cons e l ih =>
    intro x hx
    rcases ih (f acc e) x hx with h | h
    · exact (hf acc e x h).imp_right fun he => by rw [he]; exact List.mem_cons_self
    · exact .inr (List.mem_cons_of_mem _ h)

end Sweep

/-- A whole expiration pass over a sound disk stays in the archive directories: the queue, then
the scan and the deletions for space, then the queue refilled from the scan. -/
theorem Container.expire_confined (c : Container) (d : Disk) (probe : Probe) (now retention : Nat)
    {root : Place} (hroot : place? c.root = some root) (hf : c.Filed) (hs : d.Sound) :
    Sweep.Confined ⟨c, d⟩
      ⟨(c.expire d probe now retention).2.1, (c.expire d probe now retention).2.2⟩ := by
  fun_cases Container.expire c d probe now retention
  case case1 => exact .refl _
  case case2 => exact .refl _
  case case3 hq => exact Sweep.Confined.of_fromQueue hq hf
  case case4 hq _ r2 s3 kept _ hexp _ r1 s2 used _ hspace =>
    have h1 := Sweep.Confined.of_fromQueue hq hf
    obtain ⟨h2, hkept⟩ := Sweep.Confined.of_sweepExpired hexp
      (Sweep.scan_archived (h1.root ▸ hroot) (h1.sound hs))
    refine (h1.trans h2).trans (Sweep.Confined.of_sweepSpace hspace fun x hx => ?_)
    obtain ⟨⟨e, i⟩, he, rfl⟩ := List.mem_map.1 hx
    have hek : e ∈ kept := List.mem_mergeSort.1 (List.fst_mem_of_mem_zipIdx he)
    rw [h2.root]
    exact Sweep.scan_archived (h1.root ▸ hroot) (h1.sound hs) e (hkept e hek)
  case case5 hq _ r2 s3 kept _ hexp _ r1 s2 used _ _ q n hfold _ r s hsettle hspace =>
    have h1 := Sweep.Confined.of_fromQueue hq hf
    obtain ⟨h2, hkept⟩ := Sweep.Confined.of_sweepExpired hexp
      (Sweep.scan_archived (h1.root ▸ hroot) (h1.sound hs))
    have hcand : ∀ e ∈ kept.mergeSort fun a b => decide (a.lastModified ≤ b.lastModified),
        Sweep.Archived s3.container.root e := fun e he => by
      rw [h2.root]
      exact Sweep.scan_archived (h1.root ▸ hroot) (h1.sound hs) e (hkept e (List.mem_mergeSort.1 he))
    have h3 := Sweep.Confined.of_sweepSpace hspace fun x hx => by
      obtain ⟨⟨e, i⟩, he, rfl⟩ := List.mem_map.1 hx
      exact hcand e (List.fst_mem_of_mem_zipIdx he)
    have hq : ∀ x ∈ q.items, x ∈ s2.container.archived.items ∨ Sweep.Archived s2.container.root x := by
      have e1 := congrArg Prod.fst hfold
      dsimp only at e1
      intro x hx
      rw [← e1] at hx
      refine (Sweep.mem_foldl_offer ?_ _ _ x hx).imp id fun h => ?_
      · -- one offer adds its entry at the back, or nothing when the queue is full
        intro acc e y hy
        obtain ⟨q0, n0⟩ := acc
        dsimp only at hy
        split at hy
        · next q' hoffer =>
          have hitems := Fifo.offer_items q0 e
          rw [hoffer] at hitems
          split at hitems
          · simp only [Option.map_some, Option.some.injEq] at hitems
            rw [hitems, List.mem_append, List.mem_singleton] at hy
            exact hy
          · cases hitems
        · exact .inl hy
      · rw [h3.root]
        exact hcand x (List.mem_of_mem_drop (List.mem_of_mem_take h))
    exact ((((h1.trans h2).trans h3).trans (Sweep.confined_archived _ _ hq)).trans
      (Sweep.Confined.of_pair hsettle (Sweep.confined_settle _ _ _)))

namespace Action

theorem Keeps.throw {α : Type} (e : StoreError) : (throw e : Action α).Keeps :=
  Keeps.of_snd fun _ => rfl

/-- An expiration by any pass that deletes files in the archive directories only keeps the
invariant. -/
theorem keeps_expireWith_of
    {pass : Container → Disk → Probe → Nat → Nat → IoResult Expiry × Container × Disk}
    (hdel : ∀ c d probe now retention,
      Sweep.Deletes ⟨c, d⟩ ⟨(pass c d probe now retention).2.1, (pass c d probe now retention).2.2⟩)
    (hconf : ∀ c d probe now retention root, place? c.root = some root → c.Filed → d.Sound →
      Sweep.Confined ⟨c, d⟩ ⟨(pass c d probe now retention).2.1, (pass c d probe now retention).2.2⟩)
    (name : String) : (expireWith name pass).Keeps := by
  intro W hI
  unfold expireWith
  rw [exec_bind, exec_container]
  cases hbox : W.store.repo.container? name with
  | none => exact hI
  | some box =>
    obtain ⟨hmem, -⟩ := Repo.mem_of_container? hbox
    simp only [exec_bind, exec_repo, exec_host]
    obtain ⟨p, hp⟩ := Option.isSome_iff_exists.1 (hI.layout.rooted box hmem)
    have hd := hdel box W.store.host.disk W.store.repo.probe W.store.host.now
      (W.store.repo.settings.retentionNanos / 1000000)
    have hc := hconf box W.store.host.disk W.store.repo.probe W.store.host.now
      (W.store.repo.settings.retentionNanos / 1000000) p hp (hI.filed box hmem) hI.sound
    generalize pass box W.store.host.disk W.store.repo.probe W.store.host.now
      (W.store.repo.settings.retentionNanos / 1000000) = x at hd hc ⊢
    obtain ⟨o, box', d'⟩ := x
    simp only [exec_modifyHost, setContainer, exec_modifyRepo, exec_ofIo]
    exact (hI.unlink (hd.unlinked hI.sound)).setContainer hmem box' hd.name hd.root
      hd.sections (hd.bin ▸ hI.binned box hmem) (hc.filed (hI.filed box hmem))

theorem keeps_expireWith (name : String) : (expireWith name Container.expire).Keeps :=
  keeps_expireWith_of Container.expire_deletes
    (fun c d probe now retention _ hroot hf hs => c.expire_confined d probe now retention hroot hf hs)
    name

theorem keeps_expireNow (name : String) : (expireNow name).Keeps := by
  unfold expireNow
  refine Keeps.bind (Keeps.attempt (keeps_expireWith name)) fun o => ?_
  intro W hI
  rw [exec_bind, exec_repo]
  dsimp only
  cases hbox : W.store.repo.container? name with
  | none =>
    cases o with
    | ok e => exact Keeps.pure e W hI
    | error e => exact Keeps.throw e W hI
  | some box =>
    obtain ⟨hmem, -⟩ := Repo.mem_of_container? hbox
    simp only [exec_bind, exec_repo, exec_host, setContainer, exec_modifyRepo]
    have hI' := hI.setContainer hmem
      { box with gate := (box.gate.signalReady (W.store.repo.usable W.store.host.disk box)
          W.store.host.now) } rfl rfl rfl (hI.binned box hmem) (hI.filed box hmem)
    cases o with
    | ok e => exact Keeps.pure e _ hI'
    | error e => exact Keeps.throw e _ hI'

end Action

theorem Inv.step_expire {W : World} (hI : Inv W) (name : String) : Inv (W.step (.expire name)) := by
  have hI' := Action.keeps_expireNow name W hI
  simp only [World.step]
  rw [after_eq hI']
  exact hI'

end ClaimStore
