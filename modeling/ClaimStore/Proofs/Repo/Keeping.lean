import ClaimStore.Proofs.Repo.Writing
/-!
# Actions that keep the invariant

Most of the repository's work on claims it does not hand out (counting references, letting time
pass, destroying, cleaning up, expiring) never opens a stream, so it keeps the caller's claims
and the noted files as they are and only has to keep `Inv` of the store. `Action.Keeps` says
that of an action, and it composes along `bind`, `attempt`, `foldlM` and `for` loops.

The invariant reads the store through few of its parts, and the lemmas here change one part at
a time: the tracker, keeping every state; the clock, moving on; the containers' bookkeeping,
keeping names, roots and sections; and the disk, by unlinking files, by making a section's
archive directory, or by moving a claim's file (or whatever lies at its place) to its archive
place.
-/

set_option autoImplicit false

namespace ClaimStore

open ClaimStore.Claim ClaimStore.FileSystem

namespace Inv

variable {W : World}

theorem after_eq {s : Store} (hI : Inv { W with store := s }) : W.after s = { W with store := s } := by
  have hnote : World.note W.files s = W.files := hI.note_eq fun k n hkn => ⟨n, hkn⟩
  unfold World.after
  rw [hnote]

/-! ## The tracker and the clock -/

theorem tracker (hI : Inv W) (t : Tracker)
    (hstate : ∀ k, (t.record k).state.isWritable = (W.store.repo.tracker.record k).state.isWritable)
    (hq : ∀ c ∈ t.queue.items, c.Plain) :
    Inv { W with store := { W.store with repo := { W.store.repo with tracker := t } } } :=
  { hI with
    writable := fun k => (hI.writable k).trans (hstate k).symm
    stored := fun c hc => (hI.stored c hc).imp fun _ hi => ⟨hi.1, hi.2.congr rfl rfl rfl⟩
    queued := hq }

theorem clock (hI : Inv W) {now : Nat} (hnow : W.store.host.now ≤ now) :
    Inv { W with store := { W.store with host := { W.store.host with now := now } } } :=
  { hI with
    unused := fun c hc p hp sec t j ht hj => hI.unused c hc p hp sec t j (Nat.le_trans hnow ht) hj
    stored := fun c hc => (hI.stored c hc).imp fun _ hi => ⟨hi.1, hi.2.congr rfl rfl rfl⟩ }

/-! ## The containers' bookkeeping -/

/-- Containers with the same names, roots and sections, whose bins hold plain claims and whose
queues of archived files name archived places, keep the invariant: the rest of a container (its
gate, its age) is bookkeeping the invariant does not read. -/
theorem containers (hI : Inv W) {cs : List Container}
    (hshape : cs.map (fun c => (c.name, c.root, c.sections)) =
      W.store.repo.containers.map (fun c => (c.name, c.root, c.sections)))
    (hbin : ∀ b ∈ cs, ∀ c ∈ b.reclaimable.items, c.Plain) (hfiled : ∀ b ∈ cs, b.Filed) :
    Inv { W with store := { W.store with repo := { W.store.repo with containers := cs } } } := by
  have htwin : ∀ {l l' : List Container}, l.map (fun c => (c.name, c.root, c.sections)) =
      l'.map (fun c => (c.name, c.root, c.sections)) → ∀ c ∈ l, ∃ c' ∈ l',
        c'.name = c.name ∧ c'.root = c.root ∧ c'.sections = c.sections := by
    intro l l' h c hc
    obtain ⟨c', hc', he⟩ := List.mem_map.1 (h ▸ List.mem_map_of_mem hc :
      (c.name, c.root, c.sections) ∈ l'.map (fun c => (c.name, c.root, c.sections)))
    simp only [Prod.mk.injEq] at he
    exact ⟨c', hc', he⟩
  have hnames : cs.map (·.name) = W.store.repo.containers.map (·.name) := by
    have := congrArg (List.map Prod.fst) hshape
    simpa only [List.map_map, Function.comp_def] using this
  have hL := hI.layout
  refine
    { hI with
      layout := ⟨hnames ▸ hL.names, fun c hc => ?rooted, fun c hc => ?sections,
        fun c hc c' hc' hne p p' hp hp' => ?apart⟩
      sections := fun c hc p hp j hj => ?secdirs
      numbered := fun k i hki => ?numbered
      placed := fun k i hki c hc hname p hp => ?placed
      unused := fun c hc p hp sec t j ht hj => ?unused
      stored := fun c hc => (hI.stored c hc).imp fun i hi => ⟨hi.1, hi.2.congr rfl rfl rfl⟩
      binned := hbin
      filed := hfiled }
  case rooted =>
    obtain ⟨c', hc', -, hroot, -⟩ := htwin hshape c hc
    exact hroot ▸ hL.rooted c' hc'
  case sections =>
    obtain ⟨c', hc', -, -, hsec⟩ := htwin hshape c hc
    exact hsec ▸ hL.sections c' hc'
  case apart =>
    obtain ⟨d, hd, hn, hr, -⟩ := htwin hshape c hc
    obtain ⟨d', hd', hn', hr', -⟩ := htwin hshape c' hc'
    exact hL.apart d hd d' hd' (by rwa [hn, hn']) p p' (hr ▸ hp) (hr' ▸ hp')
  case secdirs =>
    obtain ⟨c', hc', -, hroot, hsec⟩ := htwin hshape c hc
    exact hI.sections c' hc' p (hroot ▸ hp) j (hsec ▸ hj)
  case numbered =>
    obtain ⟨⟨⟨c, hc, hname⟩, hsec, hid⟩, hlt⟩ := hI.numbered k i hki
    obtain ⟨c', hc', hn, -, -⟩ := htwin hshape.symm c hc
    exact ⟨⟨⟨c', hc', hn.trans hname⟩, hsec, hid⟩, hlt⟩
  case placed =>
    obtain ⟨c', hc', hn, hroot, -⟩ := htwin hshape c hc
    exact hI.placed k i hki c' hc' (hn.trans hname) p (hroot ▸ hp)
  case unused =>
    obtain ⟨c', hc', hn, hroot, -⟩ := htwin hshape c hc
    obtain ⟨h1, h2, h3⟩ := hI.unused c' hc' p (hroot ▸ hp) sec t j ht hj
    exact ⟨h1, h2, hn ▸ h3⟩

/-! ## The disk -/

/-- The invariant reads the disk through its shape and the inodes; a disk with the same inodes
that keeps the sections, the places of each noted claim and the places of the ids not yet
numbered keeps the invariant. -/
theorem of_disk (hI : Inv W) {d : Disk} (hs : d.Sound) (hino : d.inodes = W.store.host.disk.inodes)
    (hsec : ∀ c ∈ W.store.repo.containers, ∀ p, place? c.root = some p → ∀ j, j < c.sections →
      d.node? (p ++ [toString j]) = some .dir)
    (hplaced : ∀ k i, (k, i) ∈ W.files →
      Placed { W.store with host := { W.store.host with disk := d } } k i)
    (hunused : ∀ c ∈ W.store.repo.containers, ∀ p, place? c.root = some p → ∀ sec t j,
      W.store.host.now ≤ t → W.store.repo.ids.value < j →
        d.node? (p ++ [sec, formatId t j]) = none ∧
          d.node? (p ++ [sec, Archive.dirName, formatId t j]) = none) :
    Inv { W with store := { W.store with host := { W.store.host with disk := d } } } := by
  have hbytes : d.bytes = W.store.host.disk.bytes := by
    funext i
    simp only [Disk.bytes, hino]
  exact
    { hI with
      sound := hs
      sections := hsec
      numbered := fun k i hki => by
        simpa only [hino] using hI.numbered k i hki
      placed := hplaced
      unused := fun c hc p hp sec t j ht hj =>
        ⟨(hunused c hc p hp sec t j ht hj).1, (hunused c hc p hp sec t j ht hj).2,
          (hI.unused c hc p hp sec t j ht hj).2.2⟩
      stream_file := fun k n hkn => by
        have h := hI.stream_file k n hkn
        rw [← hbytes] at h
        exact h
      stored := fun c hc => (hI.stored c hc).imp fun i hi =>
        ⟨hi.1, hi.2.congr (congrFun hbytes i) rfl rfl⟩ }

theorem unlink (hI : Inv W) {d : Disk} (hu : W.store.host.disk.Unlinked d) :
    Inv { W with store := { W.store with host := { W.store.host with disk := d } } } := by
  have hheld : ∀ {q i}, HoldsAt W.store.host.disk q i → HoldsAt d q i := by
    intro q i h
    rcases hu.node q with h1 | ⟨h1, -⟩
    · rwa [HoldsAt, h1]
    · exact .inl h1
  refine hI.of_disk (hu.sound hI.sound) hu.inodes
    (fun c hc p hp j hj => hu.dir (hI.sections c hc p hp j hj))
    (fun k i hki c hc hname p hp => ?_) (fun c hc p hp sec t j ht hj => ?_)
  · obtain ⟨h1, h2⟩ := hI.placed k i hki c hc hname p hp
    exact ⟨hheld h1, hheld h2⟩
  · obtain ⟨h1, h2, -⟩ := hI.unused c hc p hp sec t j ht hj
    exact ⟨hu.of_none h1, hu.of_none h2⟩

theorem root_plain (hI : Inv W) {box : Container} (hbox : box ∈ W.store.repo.containers) {p : Place}
    (hp : place? box.root = some p) : ∀ s ∈ p, Path.Plain s := fun s hs =>
  hI.sound.plain _ _ (hI.sections box hbox p hp 0 (hI.layout.sections box hbox)) s
    (List.mem_append_left _ hs)

/-- Making a section's archive directory, and the section's directory when missing, keeps the
invariant: no claim is written or archived at either place. -/
theorem makeDirs_archive (hI : Inv W) {box : Container} (hbox : box ∈ W.store.repo.containers)
    {p : Place} (hp : place? box.root = some p) {sec : String} (hsec : Path.Plain sec) {d : Disk}
    (h : W.store.host.disk.makeDirs (p ++ [sec, Archive.dirName]) = .ok d) :
    Inv { W with store := { W.store with host := { W.store.host with disk := d } } } := by
  have hplain : ∀ s ∈ p ++ [sec, Archive.dirName], Path.Plain s := by
    intro s hs
    rcases List.mem_append.1 hs with hs | hs
    · exact hI.root_plain hbox hp s hs
    · simp only [List.mem_cons, List.not_mem_nil, or_false] at hs
      rcases hs with rfl | rfl
      · exact hsec
      · exact Path.plain_dirName
  obtain ⟨hs, hino, hnode⟩ := Disk.makeDirs_eq_ok hI.sound hplain h
  -- the places a claim is written or archived at are no prefix of the archive directory
  have hkeep : ∀ c ∈ W.store.repo.containers, ∀ p', place? c.root = some p' → ∀ a b,
      b ≠ Archive.dirName → d.node? (p' ++ [a, b]) = W.store.host.disk.node? (p' ++ [a, b]) ∧
        d.node? (p' ++ [a, Archive.dirName, b]) =
          W.store.host.disk.node? (p' ++ [a, Archive.dirName, b]) := by
    intro c hc p' hp' a b hb
    rw [hnode, hnode, if_neg, if_neg]
    · exact ⟨rfl, rfl⟩
    · rintro ⟨-, hpre, -⟩
      obtain ⟨-, -, hu⟩ := hI.layout.prefix_same hc hbox hp' hp hpre
      simpa using hu.length_le
    · rintro ⟨-, hpre, -⟩
      obtain ⟨-, -, hu⟩ := hI.layout.prefix_same hc hbox hp' hp hpre
      simp only [List.cons_prefix_cons, List.prefix_nil] at hu
      exact hb hu.2.1
  refine hI.of_disk hs hino (fun c hc p' hp' j hj => ?_) (fun k i hki c hc hname p' hp' => ?_)
    (fun c hc p' hp' sec' t j _ _ => ?_)
  · have hdir := hI.sections c hc p' hp' j hj
    rw [hnode, if_neg (fun hn => by rw [hdir] at hn; cases hn.2.2)]
    exact hdir
  · obtain ⟨h1, h2⟩ := hkeep c hc p' hp' k.2.1 k.2.2 (hI.numbered k i hki).1.id.2
    unfold HoldsAt
    rw [h1, h2]
    exact hI.placed k i hki c hc hname p' hp'
  · obtain ⟨h1, h2⟩ := hkeep c hc p' hp' sec' (formatId t j) (Path.formatId_ne_dirName t j)
    rw [h1, h2]
    obtain ⟨h3, h4, -⟩ := hI.unused c hc p' hp' sec' t j (by assumption) (by assumption)
    exact ⟨h3, h4⟩

/-- Moving whatever lies at a claim's place in a container to the claim's archive place keeps
the invariant: the archive place of a noted claim receives the claim's own file, and the
archive place of an id not yet numbered receives the nothing that lay at its place. -/
theorem rename_archive (hI : Inv W) {box : Container} (hbox : box ∈ W.store.repo.containers)
    {p : Place} (hp : place? box.root = some p) {r : Resource} (hr : r.Plain)
    (hname : box.name = r.container) {d : Disk}
    (h : W.store.host.disk.rename (livePlace p r) (archivePlace p r) = .ok d) :
    Inv { W with store := { W.store with host := { W.store.host with disk := d } } } := by
  have hL := hI.layout
  have hplain := plain_archivePlace_of_root (hI.root_plain hbox hp) hr
  have hs := hI.sound.rename hplain h
  obtain ⟨-, -, ⟨hsd, -⟩ | ⟨-, -, hino, hnode⟩⟩ := Disk.rename_eq_ok h
  · simp [livePlace, archivePlace] at hsd
  have hdst : ∀ c ∈ W.store.repo.containers, ∀ p', place? c.root = some p' → ∀ u : List String,
      u.length ≤ 3 → archivePlace p r <+: p' ++ u →
        c = box ∧ p' = p ∧ u = [r.sectionName, Archive.dirName, r.id] := by
    intro c hc p' hp' u hu hpre
    obtain ⟨rfl, rfl, hu'⟩ := hL.prefix_same hbox hc hp hp' hpre
    exact ⟨rfl, rfl, (hu'.eq_of_length (by have := hu'.length_le; simp at this ⊢; omega)).symm⟩
  have hcases : ∀ q, q ≠ [] → d.node? q = W.store.host.disk.node? q ∨ d.node? q = none ∨
      archivePlace p r <+: q ∧ d.node? q =
        W.store.host.disk.node? (livePlace p r ++ q.drop (archivePlace p r).length) := by
    intro q hq
    rw [hnode q hq]
    split
    · next hpre => exact .inr (.inr ⟨hpre, rfl⟩)
    · split
      · exact .inr (.inl rfl)
      · exact .inl rfl
  refine hI.of_disk hs hino (fun c hc p' hp' j hj => ?_) (fun k i hki c hc hname' p' hp' => ?_)
    (fun c hc p' hp' sec t j ht hj => ?_)
  · rw [hnode _ (by simp), if_neg, if_neg]
    · exact hI.sections c hc p' hp' j hj
    · intro hpre
      obtain ⟨-, -, hu⟩ := hL.prefix_same hbox hc hp hp' hpre
      simpa using hu.length_le
    · intro hpre
      obtain ⟨-, -, hu⟩ := hL.prefix_same hbox hc hp hp' hpre
      simpa using hu.length_le
  · obtain ⟨hP1, hP2⟩ := hI.placed k i hki c hc hname' p' hp'
    constructor
    · rcases hcases (p' ++ [k.2.1, k.2.2]) (by simp) with h1 | h1 | ⟨hpre, -⟩
      · rwa [HoldsAt, h1]
      · exact .inl h1
      · obtain ⟨-, -, hu⟩ := hdst c hc p' hp' _ (by simp) hpre
        simp at hu
    · rcases hcases (p' ++ [k.2.1, Archive.dirName, k.2.2]) (by simp) with h1 | h1 | ⟨hpre, h2⟩
      · rwa [HoldsAt, h1]
      · exact .inl h1
      -- the archive place of the claim itself: it receives what lay at the claim's place
      · obtain ⟨rfl, rfl, hu⟩ := hdst c hc p' hp' _ (by simp) hpre
        simp only [List.cons.injEq, and_true, true_and] at hu
        obtain ⟨h1, h3⟩ := hu
        rw [HoldsAt, h2, show (archivePlace p' r).length =
          (p' ++ [k.2.1, Archive.dirName, k.2.2]).length by simp [archivePlace], List.drop_length,
          List.append_nil]
        simpa only [HoldsAt, livePlace, ← h1, ← h3] using hP1
  · obtain ⟨hU1, hU2, -⟩ := hI.unused c hc p' hp' sec t j ht hj
    constructor
    · rcases hcases (p' ++ [sec, formatId t j]) (by simp) with h1 | h1 | ⟨hpre, -⟩
      · rwa [h1]
      · exact h1
      · obtain ⟨-, -, hu⟩ := hdst c hc p' hp' _ (by simp) hpre
        simp at hu
    · rcases hcases (p' ++ [sec, Archive.dirName, formatId t j]) (by simp) with h1 | h1 | ⟨hpre, h2⟩
      · rwa [h1]
      · exact h1
      · obtain ⟨rfl, rfl, hu⟩ := hdst c hc p' hp' _ (by simp) hpre
        simp only [List.cons.injEq, and_true, true_and] at hu
        obtain ⟨h1, h3⟩ := hu
        rw [h2, show (archivePlace p' r).length =
          (p' ++ [sec, Archive.dirName, formatId t j]).length by simp [archivePlace], List.drop_length,
          List.append_nil]
        simpa only [livePlace, ← h1, ← h3] using hU1

end Inv

/-! ## Composing actions that keep the invariant -/

namespace Action

/-- An action keeps the invariant: run in a world that satisfies it, it leaves a store that
satisfies it with the same claims and files. -/
def Keeps {α : Type} (a : Action α) : Prop :=
  ∀ W : World, Inv W → Inv { W with store := (a.exec W.store).2 }

namespace Keeps

variable {α β γ : Type}

theorem of_snd {a : Action α} (h : ∀ s, (a.exec s).2 = s) : a.Keeps := fun W hI => by
  rw [h]
  exact hI

protected theorem pure (x : α) : (pure x : Action α).Keeps := of_snd fun _ => rfl

protected theorem bind {x : Action α} {f : α → Action β} (hx : x.Keeps) (hf : ∀ a, (f a).Keeps) :
    (x >>= f).Keeps := by
  intro W hI
  have h := hx W hI
  rw [exec_bind]
  rcases hr : x.exec W.store with ⟨_ | a, s⟩
  · rw [hr] at h
    exact h
  · rw [hr] at h
    exact hf a { W with store := s } h

protected theorem attempt {a : Action α} (ha : a.Keeps) : (attempt a).Keeps := by
  intro W hI
  rw [exec_attempt]
  exact ha W hI

protected theorem foldlM {f : β → γ → Action β} {l : List γ} (hf : ∀ b, ∀ x ∈ l, (f b x).Keeps)
    (init : β) : (l.foldlM f init).Keeps := by
  induction l generalizing init with
  | nil => exact Keeps.pure init
  | cons x l ih =>
    rw [List.foldlM_cons]
    exact (hf init x List.mem_cons_self).bind fun b =>
      ih (fun b y hy => hf b y (List.mem_cons_of_mem _ hy)) b

protected theorem forIn {f : γ → β → Action (ForInStep β)} {l : List γ}
    (hf : ∀ x ∈ l, ∀ b, (f x b).Keeps) (init : β) : (forIn l init f).Keeps := by
  induction l generalizing init with
  | nil => exact Keeps.pure init
  | cons x l ih =>
    rw [List.forIn_cons]
    refine (hf x List.mem_cons_self init).bind fun r => ?_
    cases r with
    | done b => exact Keeps.pure b
    | yield b => exact ih (fun y hy => hf y (List.mem_cons_of_mem _ hy)) b

end Keeps

theorem exec_container (s : Store) (name : String) : (container name).exec s =
    match s.repo.container? name with
    | some c => (.ok c, s)
    | none => (.error (.unknownContainer name), s) := by
  unfold container
  cases h : s.repo.container? name <;> simp [exec_bind, h]

theorem keeps_container (name : String) : (container name).Keeps := Keeps.of_snd fun s => by
  rw [exec_container]
  split <;> rfl

theorem keeps_repo : repo.Keeps := Keeps.of_snd fun _ => rfl

theorem keeps_host : host.Keeps := Keeps.of_snd fun _ => rfl

theorem exec_tick_of_idle (s : Store) (h : s.repo.background = none) :
    tick.exec s = (.ok (), { s with host := { s.host with now := s.host.now + 1 } }) := by
  simp [tick, exec_bind, h]

theorem exec_pass_of_idle (s : Store) (ms : Nat) (h : s.repo.background = none) :
    (pass ms).exec s = (.ok (), { s with host := { s.host with now := s.host.now + ms } }) := by
  induction ms generalizing s with
  | zero => rfl
  | succ ms ih =>
    rw [pass, exec_bind_ok s (exec_tick_of_idle s h),
      ih { s with host := { s.host with now := s.host.now + 1 } } h]
    simp only [Nat.add_assoc, Nat.add_comm 1 ms]

theorem keeps_decrement {r : Resource} (hr : r.Plain) : (tracking (·.decrement r)).Keeps := by
  intro W hI
  rw [exec_tracking]
  refine hI.tracker _ (fun k => ?_) (fun c hc => ?_)
  · rw [Tracker.record_decrement]
    split
    · next h => simp [h.1]
    · rfl
  · rcases Tracker.mem_queue_decrement _ _ hc with hc | rfl
    · exact hI.queued c hc
    · exact hr

end Action

/-! ## Counting references and waiting -/

namespace Inv

variable {W : World}

theorem step_increment (hI : Inv W) (r : Resource) : Inv (W.step (.increment r)) := by
  have hI' := hI.tracker (W.store.repo.tracker.increment r false).2 (fun k => ?_)
    (fun c hc => hI.queued c ?_)
  · simp only [World.step, Action.exec_tracking]
    rw [after_eq hI']
    exact hI'
  · rw [Tracker.record_increment]
    split <;> simp_all
  · rwa [Tracker.queue_increment] at hc

theorem step_decrement (hI : Inv W) {r : Resource} (hr : r.Plain) : Inv (W.step (.decrement r)) := by
  have hI' := Action.keeps_decrement hr W hI
  simp only [World.step]
  rw [after_eq hI']
  exact hI'

theorem step_wait (hI : Inv W) (ms : Nat) : Inv (W.step (.wait ms)) := by
  have hI' := hI.clock (Nat.le_add_right W.store.host.now ms)
  simp only [World.step, Action.exec_pass_of_idle _ ms hI.running.2]
  rw [after_eq hI']
  exact hI'

end Inv

end ClaimStore
