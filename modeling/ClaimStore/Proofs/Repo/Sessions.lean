import ClaimStore.Proofs.Repo.Tallying
import Mathlib.Algebra.Order.BigOperators.Group.List
import Mathlib.Algebra.Order.Group.Nat
/-!
# Sessions keep the archived-file count exact

A session opens a repository over roots that hold only what a repository makes there, and then
takes steps: the client's steps, the chores of the background work (binning queued claims,
destroying a bin's claims, expiring archived files), purges, and re-openings of the same roots. Along every session each container's gate counts, modulo `2^64`,
exactly the regular files in its sections' archive directories (`Session.tallied`), so a count
that fits is read back as it is (`archived_count_exact`).

Writes only append to files that exist: they keep the disk's entries and the containers
(`Store.Tree`), hence the tallies.
-/

set_option autoImplicit false

namespace ClaimStore

open ClaimStore.Claim ClaimStore.FileSystem ClaimStore.FileSystem.Disk

/-- The disk holds the entries `N` and the repository the containers `C`. -/
def Store.Tree (N : List (Place × Node)) (C : List Container) (s : Store) : Prop :=
  s.host.disk.nodes = N ∧ s.repo.containers = C

theorem Writer.write_nodes (w : Writer) (h : Host) (bytes : ByteArray) :
    (w.write h bytes).2.2.disk.nodes = h.disk.nodes := by
  unfold Writer.write
  split
  · rfl
  · cases hwa : h.writeAll w.stream bytes with
    | error e => rfl
    | ok h' =>
      have hd : h'.disk = h.disk.append (h.stream w.stream).inode bytes h.now := by
        unfold Host.writeAll at hwa
        dsimp only at hwa
        split at hwa
        · cases hwa
        · cases hwa
          rfl
      simp [Host.setCell, hd, Disk.append, Disk.store]

namespace Action

/-! ## Writes keep the tree -/

section Tree

variable {N : List (Place × Node)} {C : List Container} {α : Type}

theorem tree_repo : repo.Preserves (Store.Tree N C) := Preserves.of_snd fun _ => rfl

theorem tree_host : host.Preserves (Store.Tree N C) := Preserves.of_snd fun _ => rfl

theorem tree_ofIo (r : IoResult α) : (ofIo r).Preserves (Store.Tree N C) :=
  Preserves.of_snd fun _ => by cases r <;> rfl

theorem tree_tracking (f : Tracker → α × Tracker) : (tracking f).Preserves (Store.Tree N C) :=
  fun _ h => h

theorem tree_modifyRepo {f : Repo → Repo} (hf : ∀ r, (f r).containers = r.containers) :
    (modifyRepo f).Preserves (Store.Tree N C) := fun s h => ⟨h.1, (hf s.repo).trans h.2⟩

theorem tree_modifyHost {f : Host → Host} (hf : ∀ h, (f h).disk.nodes = h.disk.nodes) :
    (modifyHost f).Preserves (Store.Tree N C) := fun s h => ⟨(hf s.host).trans h.1, h.2⟩

theorem tree_retireStream (c : Resource) (expected : Option Nat) :
    (retireStream c expected).Preserves (Store.Tree N C) := by
  unfold retireStream
  refine tree_repo.bind fun r => ?_
  refine Preserves.ite ((tree_modifyRepo ?_).bind fun _ => ?_) ?_
  · exact fun _ => rfl
  all_goals
    split
    · exact tree_modifyHost fun _ => rfl
    · exact Preserves.pure ()

theorem tree_write (c : ClaimRef) : (write c).Preserves (Store.Tree N C) := fun s hs => by
  by_cases h : s.host.cell c.cell < 0 ∧ ∃ n, s.repo.streamOf? c.resource = some n ∧
      (s.host.stream n).written = c.offset
  · obtain ⟨hc, n, hn, he⟩ := h
    rw [exec_write_of_open s c hc hn he]
    exact hs
  · obtain ⟨e, he⟩ := exec_write_of_not_open s c h
    rw [he]
    exact hs

theorem tree_writeWith (w : Writer) (bytes : ByteArray) :
    (writeWith w bytes).Preserves (Store.Tree N C) := fun s hs => by
  rw [exec_writeWith]
  exact ⟨(Writer.write_nodes w s.host bytes).trans hs.1, hs.2⟩

theorem tree_completeWrite (c : Resource) (stream : Nat) (failed : Bool) :
    (completeWrite c stream failed).Preserves (Store.Tree N C) := by
  unfold completeWrite
  refine tree_repo.bind fun r => tree_host.bind fun h => ?_
  have hretire : ∀ result : IoResult Unit,
      (retireStream c (some stream) >>= fun _ => tracking (·.freeze c) >>= fun _ =>
        (pure result : Action (IoResult Unit))).Preserves (Store.Tree N C) := fun _ =>
    (tree_retireStream _ _).bind fun _ => (tree_tracking _).bind fun _ => Preserves.pure _
  split
  refine Preserves.ite (Preserves.ite ?_ (hretire _)) (hretire _)
  split
  · refine (tree_modifyRepo ?_).bind fun _ => Preserves.pure _
    exact fun _ => rfl
  · exact hretire _

theorem tree_endWriter (w : Writer)
    (finish : Writer → Host → Option (IoResult Unit × Bool) × Writer) :
    (endWriter w finish).Preserves (Store.Tree N C) := by
  unfold endWriter
  refine tree_host.bind fun h => ?_
  split
  · exact Preserves.pure _
  · exact (tree_completeWrite _ _ _).bind fun _ => Preserves.pure _

theorem tree_abortWriter (w : Writer) : (abortWriter w).Preserves (Store.Tree N C) :=
  (tree_endWriter _ _).bind fun _ => Preserves.pure ()

theorem tree_closeWriter (w : Writer) : (closeWriter w).Preserves (Store.Tree N C) :=
  (tree_endWriter _ _).bind fun r => tree_ofIo r

theorem tree_fill (w : Writer) (bytes : ByteArray) : (fill w bytes).Preserves (Store.Tree N C) := by
  unfold fill writeAll
  refine Preserves.bind ?_ fun x => ?_
  · exact Preserves.ite (Preserves.pure _) ((tree_writeWith _ _).bind fun _ => Preserves.pure _)
  · split
    · exact (tree_abortWriter _).bind fun _ => Preserves.throw _
    · exact (tree_closeWriter _).bind fun _ => Preserves.pure _

theorem tree_importBytes (c : ClaimRef) (bytes : ByteArray) :
    (importBytes c bytes).Preserves (Store.Tree N C) :=
  (tree_write c).bind fun w => tree_fill w bytes

theorem tree_importPath (c : ClaimRef) (source : String) :
    (importPath c source).Preserves (Store.Tree N C) := by
  unfold importPath importNode
  refine tree_host.bind fun h => (tree_ofIo _).bind fun n => (tree_write c).bind fun w => ?_
  split
  · exact (tree_abortWriter _).bind fun _ => Preserves.throw _
  · exact tree_host.bind fun _ => tree_fill _ _

theorem tree_pump (r : Reading) (w : Writer) (moved : Nat) :
    ∀ fuel, (pump r w moved fuel).Preserves (Store.Tree N C)
  | 0 => Preserves.pure _
  | fuel + 1 => by
    rw [pump]
    refine tree_host.bind fun h => ?_
    split
    · exact Preserves.pure _
    · refine Preserves.ite (Preserves.pure _) ((tree_writeWith _ _).bind fun x => ?_)
      split
      · exact Preserves.pure _
      · exact tree_pump _ _ _ fuel

theorem tree_copyClaim (original copy : ClaimRef) :
    (copyClaim original copy).Preserves (Store.Tree N C) := by
  unfold copyClaim
  refine (tree_write copy).bind fun w =>
    (Preserves.attempt (Preserves.of_snd fun s => read_snd s original)).bind fun o => ?_
  split
  · exact (tree_abortWriter _).bind fun _ => Preserves.throw _
  · refine tree_host.bind fun h => Preserves.ite (Preserves.pure _)
      ((tree_pump _ _ _ _).bind fun x => ?_)
    split
    · exact (tree_abortWriter _).bind fun _ => Preserves.throw _
    · exact (tree_closeWriter _).bind fun _ => Preserves.pure _

end Tree

/-- An action that keeps every tree keeps the tallies. -/
theorem Preserves.tallied_of_tree {α : Type} {a : Action α}
    (h : ∀ N C, a.Preserves (Store.Tree N C)) : a.Preserves Store.Tallied := fun s hT => by
  obtain ⟨hn, hc⟩ := h _ _ s ⟨rfl, rfl⟩
  exact hT.of_tree hn (by rw [hc])

/-! ## Clones and the background work -/

/-- A rollback removes a claim's file from its section, never an archived one. -/
theorem tallied_rollback {c : ClaimRef} (hr : c.resource.Plain) :
    (rollback c).Preserves Store.Tallied := by
  unfold rollback
  have hrest : (tracking (·.decrement c.resource) >>= fun _ =>
      attempt (removeResource c.resource) >>= fun _ => (pure () : Action Unit)).Preserves
        Store.Tallied :=
    (Preserves.tallied_of_tree fun _ _ => tree_tracking _).bind fun _ =>
      (tallied_removeResource hr).attempt.bind fun _ => Preserves.pure ()
  refine (Preserves.tallied_of_tree fun _ _ => tree_repo).bind fun r => Preserves.ite ?_ hrest
  exact (Preserves.tallied_of_tree fun _ _ => tree_retireStream _ none).bind fun _ =>
    (Preserves.tallied_of_tree fun _ _ => tree_tracking _).bind fun _ => hrest

/-- A clone creates a claim, copies into its file and on failure rolls the new claim back. -/
theorem tallied_clone {W : World} (hI : Inv W) (hT : W.store.Tallied)
    (hids : W.store.repo.ids.value + 1 < 2 ^ 64) (original : ClaimRef) (lossTolerant : Bool) :
    ((clone original lossTolerant).exec W.store).2.Tallied := by
  have h1 := tallied_create hI hT hids lossTolerant
  unfold clone
  rw [exec_bind]
  rcases hcr : (create lossTolerant).exec W.store with ⟨_ | (copy | _), s1⟩ <;> rw [hcr] at h1 <;>
    dsimp only
  · exact h1
  · have hplain := (hI.clone_copy hids hcr original).1
    refine Preserves.bind (Preserves.attempt (Preserves.tallied_of_tree fun _ _ =>
      tree_copyClaim original copy)) (fun o => ?_) s1 h1
    split
    · exact Preserves.pure _
    · exact Preserves.pure _
    · exact (tallied_rollback hplain).bind fun _ => Preserves.throw _
  · exact h1

section Counting

variable (W : World)

/-- Offering a plain claim to a container's bin keeps the counts: bins are not tallied. -/
theorem counted_offer {s : Store} (h : W.Counted s) {box : Container}
    (hbox : s.repo.container? box.name = some box) {c : Resource} (hc : c.Plain)
    {q : Fifo Resource} (hq : box.reclaimable.offer c = some q) :
    W.Counted { s with repo := s.repo.setContainer { box with reclaimable := q } } := by
  obtain ⟨hI, hT⟩ := h
  obtain ⟨hmem, -⟩ := Repo.mem_of_container? hbox
  have hitems : q.items = box.reclaimable.items ++ [c] := by
    have h0 := Fifo.offer_items box.reclaimable c
    rw [hq] at h0
    split at h0
    · exact Option.some.inj h0
    · cases h0
  refine ⟨hI.setContainer hmem _ rfl rfl rfl (fun x hx => ?_) (hI.filed box hmem),
    hT.of_tree rfl (Repo.map_setContainer Container.tally hI.layout.names hbox rfl)⟩
  rw [hitems, List.mem_append, List.mem_singleton] at hx
  rcases hx with hx | rfl
  · exact hI.binned box hmem x hx
  · exact hc

/-- Binning the queued claims keeps the counts: a full bin is emptied by a round of destruction
first, and the bins are not tallied. -/
theorem counted_binDestructable : binDestructable.Preserves W.Counted := by
  rintro s ⟨hI, hT⟩
  unfold binDestructable
  rw [exec_bind, exec_repo]
  simp only [Tracker.drainDestructable, Fifo.drain]
  rw [exec_bind, exec_modifyRepo]
  have hI' := hI.tracker { s.repo.tracker with queue :=
      (s.repo.tracker.queue.drain s.repo.tracker.pending).2 } (fun _ => rfl)
    fun c hc => hI.queued c (List.mem_of_mem_drop hc)
  refine Preserves.bind (Preserves.forIn (fun c hc st => ?_) _) (fun r => ?_) _
    ⟨hI', hT.of_tree rfl rfl⟩
  · have hplain : c.Plain := hI.queued c (List.mem_of_mem_take hc)
    intro s1 h1
    rw [exec_bind, exec_repo]
    dsimp only
    split
    · exact h1
    rw [exec_bind, exec_repo]
    dsimp only
    split
    · exact h1
    next box hbox =>
    have hbox' : s1.repo.container? box.name = some box := by
      rw [(Repo.mem_of_container? hbox).2]
      exact hbox
    split
    · -- a full bin is emptied first, and the container read again
      rw [exec_bind]
      have h2 := counted_archiveOrDestroy W {} box.name s1 h1
      generalize (archiveOrDestroy {} box.name).exec s1 = x at h2
      obtain ⟨o, s2⟩ := x
      cases o with
      | error e => exact h2
      | ok rep =>
        dsimp only
        rw [exec_bind, exec_container]
        cases hb2 : s2.repo.container? box.name with
        | none => exact h2
        | some box2 =>
          have hb2' : s2.repo.container? box2.name = some box2 := by
            rw [(Repo.mem_of_container? hb2).2]
            exact hb2
          dsimp only
          split
          · next q hq =>
            simp only [setContainer, exec_bind, exec_modifyRepo, exec_pure]
            exact counted_offer W h2 hb2' hplain hq
          · exact h2
    · rw [exec_bind, exec_pure]
      dsimp only
      split
      · next q hq =>
        simp only [setContainer, exec_bind, exec_modifyRepo, exec_pure]
        exact counted_offer W h1 hbox' hplain hq
      · exact h1
  · split <;> exact Preserves.pure _

/-- A chore of the background work keeps the counts exact, an expiration over a container whose
count fits in 64 bits. -/
theorem counted_runChore (ch : Chore) {s : Store} (h : W.Counted s)
    (hfit : ∀ name, ch = .expire name → s.Fits name) : W.Counted ((runChore ch).exec s).2 := by
  cases ch with
  | bin => exact counted_binDestructable W s h
  | reclaim name =>
    exact ((counted_archiveOrDestroy W {} name).bind fun _ => Preserves.pure ()) s h
  | expire name =>
    have h1 := counted_expireWith W Container.expireScheduled_deletes
      (fun c d probe now retention _ hroot hf hs =>
        c.expireScheduled_confined d probe now retention hroot hf hs)
      (fun c d probe now retention _ hf hE => c.expireScheduled_exact probe now retention hf hE)
      name h (hfit name rfl)
    unfold runChore
    rw [exec_bind, exec_attempt]
    generalize (expireWith name Container.expireScheduled).exec s = x at h1
    obtain ⟨o, s1⟩ := x
    cases o <;> exact h1

end Counting

end Action

/-! ## Purges

A purge removes what lies below each root and lays out the sections again: every removal drops
a subtree and every directory made is set at a place of its own, so the disk stays keyed. Below
each root nothing but the section directories is left, so the emptied gates count right.
-/

theorem Container.keyed_ensureLayout {c : Container} {d d' : Disk} (hk : d.Keyed)
    (h : c.ensureLayout d = .ok d') : d'.Keyed := by
  unfold Container.ensureLayout at h
  cases hm : d.makeDirsAt c.root with
  | error e => simp [hm, bind, Except.bind] at h
  | ok d1 =>
    simp only [hm, bind, Except.bind] at h
    have hk1 := hk.makeDirsAt hm
    clear hm
    generalize c.sectionNames = L at h
    -- each section is made by one `makeDir` unless it is already a directory
    induction L generalizing d1 with
    | nil => exact (Except.ok.inj h) ▸ hk1
    | cons x L ih =>
      rw [List.foldlM_cons] at h
      split at h
      · exact ih d1 hk1 h
      · cases hq : Disk.placeOf (c.sectionPath x) with
        | error e => simp [hq, bind, Except.bind] at h
        | ok q =>
          cases hmk : d1.makeDir q with
          | error e => simp [hq, hmk, bind, Except.bind] at h
          | ok d2 =>
            simp only [hq, hmk, bind, Except.bind] at h
            exact ih d2 (hk1.makeDir hmk) h

namespace Action

variable {α : Type}

/-- The disk's listing names each place once. -/
abbrev KeyedDisk (s : Store) : Prop := s.host.disk.Keyed

theorem keyed_of_disk {a : Action α} (h : ∀ s, (a.exec s).2.host.disk = s.host.disk) :
    a.Preserves KeyedDisk := fun s hs => by
  show (a.exec s).2.host.disk.Keyed
  rw [h]
  exact hs

theorem keyed_clearDirectory (root : String) : (clearDirectory root).Preserves KeyedDisk := by
  intro s hs
  unfold clearDirectory
  rw [exec_bind, exec_host]
  dsimp only
  split
  · rw [exec_bind, exec_pure]
    dsimp only
    split
    · exact hs
    · exact hs
    · refine ((Preserves.forIn (fun x _ b => ?_) _).bind fun _ => Preserves.pure _) s hs
      obtain ⟨name, n⟩ := x
      intro t ht
      rw [exec_bind, exec_host]
      dsimp only
      split
      · next d' hrm =>
        simp only [exec_bind, exec_modifyHost, exec_pure]
        show d'.Keyed
        rw [removeEntry_eq_drop hrm]
        exact Keyed.drop ht _
      · rw [exec_bind]
        exact ht
  · exact hs

theorem keyed_container (name : String) : (container name).Preserves KeyedDisk :=
  keyed_of_disk fun s => by
    rw [exec_container]
    split <;> rfl

theorem keyed_emptyContainer (name : String) : (emptyContainer name).Preserves KeyedDisk := by
  unfold emptyContainer
  refine (keyed_container name).bind fun box => ?_
  exact (keyed_of_disk fun _ => rfl).bind fun _ => keyed_clearDirectory box.root

theorem keyed_emptyContainers : emptyContainers.Preserves KeyedDisk := by
  unfold emptyContainers
  refine (keyed_of_disk fun _ => rfl).bind fun r =>
    (Preserves.forIn (fun name _ b => ?_) _).bind fun _ => Preserves.pure _
  exact (keyed_emptyContainer name).bind fun _ => Preserves.pure _

theorem keyed_restoreLayouts : restoreLayouts.Preserves KeyedDisk := by
  unfold restoreLayouts
  refine (keyed_of_disk fun _ => rfl).bind fun r =>
    (Preserves.forIn (fun name _ b => ?_) _).bind fun _ => Preserves.pure _
  refine Preserves.bind ?_ fun _ => Preserves.pure _
  unfold restoreLayout
  refine (keyed_container name).bind fun box => ?_
  intro s hs
  rw [exec_bind, exec_host]
  dsimp only
  split
  · exact hs
  · next d1 hw =>
    have hk1 : d1.Keyed := by
      cases hm : s.host.disk.makeDirsAt box.root with
      | error e => simp [hm, bind, Except.bind] at hw
      | ok d0 =>
        simp only [hm, bind, Except.bind] at hw
        split at hw
        · exact (Except.ok.inj hw) ▸ Keyed.makeDirsAt hs hm
        · cases hw
    split
    · next d2 hl =>
      show d2.Keyed
      exact Container.keyed_ensureLayout hk1 hl
    · exact hs

/-- A purge keeps the disk keyed. -/
theorem keyed_purge : purge.Preserves KeyedDisk := by
  unfold purge
  refine (keyed_of_disk fun s => ?_ : closeAllStreams.Preserves _).bind fun _ =>
    keyed_emptyContainers.bind fun _ => keyed_restoreLayouts.bind fun _ =>
      keyed_of_disk fun _ => rfl
  rw [exec_closeAllStreams]
  exact Host.disk_closeAll _ _

end Action

/-- A tree with no file below `p` and nothing two levels down is tidy. -/
theorem FileSystem.Disk.Tidy.of_bare {d : Disk} {p : Place} {names : List String}
    (hbare : ∀ x rest, ¬ d.HasFile (p ++ x :: rest)) (hflat : ∀ x n, d.node? (p ++ [x, n]) = none) :
    d.Tidy p names :=
  ⟨fun x rest h => absurd h (hbare x rest), fun x n _ h => by simp [hflat] at h,
    fun x n h => absurd h (hbare x [n])⟩

namespace Container

variable {c : Container} {p : Place} {d : Disk}

/-- A root holding no file counts none. -/
theorem countArchived_of_bare (hs : d.Sound) (hk : d.Keyed) (hp : place? c.root = some p)
    (hbare : ∀ x rest, ¬ d.HasFile (p ++ x :: rest)) : c.countArchived d = 0 := by
  rw [countArchived_eq hs hk hp]
  refine List.sum_eq_zero_iff_forall_eq_nat.2 fun n hn => ?_
  obtain ⟨x, -, rfl⟩ := List.mem_map.1 hn
  refine List.length_eq_zero_iff.2 (List.eq_nil_iff_forall_not_mem.2 fun y hy => ?_)
  exact hbare x _ (by simpa using (mem_fileNames hk).1 hy)

/-- A root holding nothing but directories one level down tallies a gate that counts nothing. -/
theorem tallies_of_bare (hs : d.Sound) (hk : d.Keyed) (hp : place? c.root = some p)
    (hbare : ∀ x rest, ¬ d.HasFile (p ++ x :: rest))
    (hflat : ∀ x n, d.node? (p ++ [x, n]) = none) (hg : c.gate.archived = 0) : c.Tallies p d where
  tidy := .of_bare hbare hflat
  counted := by rw [hg, countArchived_of_bare hs hk hp hbare]

end Container

/-- A purge that ends well leaves each container emptied over a root holding its empty sections. -/
theorem Inv.purge_tallied {W : World} (hI : Inv W) (hT : W.store.Tallied) {s : Store}
    (h : Action.purge.exec W.store = (.ok (), s)) : s.Tallied := by
  have hs := Action.purged_of_ok hI.purgeable h
  have hk : s.host.disk.Keyed := by
    have := Action.keyed_purge W.store hT.keyed
    rwa [h] at this
  refine ⟨(hs.purgeable hI.purgeable).layout, hs.disk.sound, hk, fun c hc p hp => ?_⟩
  refine c.tallies_of_bare hs.disk.sound hk hp (fun x rest hf => ?_)
    (fun x n => hs.node?_deeper hc hp x n []) (hs.cleared hc).1
  obtain ⟨i, hi⟩ := hf
  rw [hs.below hc hp _ (below_append p (by simp))] at hi
  split at hi <;> cases hi

/-! ## Steps -/

namespace Inv

variable {W : World}

/-- Every step keeps the counts exact, an expiration when the count of its container fits in
64 bits. -/
theorem step_tallied (hI : Inv W) (hT : W.store.Tallied) (st : Step) (hplain : st.PlainClaims)
    (hids : st.numbers → W.store.repo.ids.value + 1 < 2 ^ 64)
    (hfit : ∀ name, st = .expire name → W.store.Fits name) : (W.step st).store.Tallied := by
  cases st with
  | create lossTolerant =>
    have h := Action.tallied_create hI hT (hids rfl) lossTolerant
    simp only [World.step]
    split <;> next h' => rw [h'] at h; exact h
  | write k =>
    simp only [World.step]
    split
    · next c _ =>
      have ht := Action.Preserves.tallied_of_tree (fun _ _ => Action.tree_write c.claim) W.store hT
      split <;> next h => rw [h] at ht; exact ht
    · exact hT
  | send k bytes =>
    simp only [World.step]
    split
    · next w _ =>
      have ht := Action.Preserves.tallied_of_tree (fun _ _ => Action.tree_writeWith w bytes) W.store hT
      split <;> next h => rw [h] at ht; exact ht
    · exact hT
  | flush k =>
    simp only [World.step]
    split <;> exact hT
  | close k =>
    simp only [World.step]
    split
    · exact Action.Preserves.tallied_of_tree (fun _ _ => Action.tree_endWriter _ _) W.store hT
    · exact hT
  | abort k =>
    simp only [World.step]
    split
    · exact Action.Preserves.tallied_of_tree (fun _ _ => Action.tree_endWriter _ _) W.store hT
    · exact hT
  | clone original lossTolerant =>
    have h := Action.tallied_clone hI hT (hids rfl) original lossTolerant
    simp only [World.step]
    split
    · exact hT
    · next h' => rw [h'] at h; exact h
  | importBytes k bytes =>
    simp only [World.step]
    split
    · exact Action.Preserves.tallied_of_tree (fun _ _ => Action.tree_importBytes _ _) W.store hT
    · exact hT
  | importPath k source =>
    simp only [World.step]
    split
    · exact Action.Preserves.tallied_of_tree (fun _ _ => Action.tree_importPath _ _) W.store hT
    · exact hT
  | increment r =>
    simp only [World.step, World.after]
    exact Action.Preserves.tallied_of_tree (fun _ _ => Action.tree_tracking _) W.store hT
  | decrement r =>
    simp only [World.step, World.after]
    exact Action.Preserves.tallied_of_tree (fun _ _ => Action.tree_tracking _) W.store hT
  | remove r => exact Action.tallied_removeResource hplain W.store hT
  | archive r => exact (Action.counted_archive W hplain W.store ⟨hI, hT⟩).2
  | destroy => exact (Action.counted_runDestruction W W.store ⟨hI, hT⟩).2
  | cleanup => exact (Action.counted_cleanup W W.store ⟨hI, hT⟩).2
  | expire name => exact (Action.counted_expireNow W name ⟨hI, hT⟩ (hfit name rfl)).2
  | wait ms =>
    simp only [World.step, World.after]
    rw [Action.exec_pass_of_idle _ _ hI.running.2]
    exact hT.of_tree rfl rfl

end Inv

/-! ## Opening -/

/-- A disk a repository with settings `s` can open over with exact counts: its listing names each
place once, and below each configured root lies a tree such a repository makes. -/
structure Stocked (s : Config.Resolved) (d : Disk) : Prop where
  keyed : d.Keyed
  tidy : ∀ e ∈ s.containers, ∀ p, place? e.2 = some p →
    d.Tidy p ((List.range (max s.sections 1)).map toString)

/-- Opening makes the roots, the directories above them and their sections: nothing two levels
below a root, which is neither inside another root nor one of its sections. -/
theorem Layout.not_opened {cs : List Container} (hL : Layout cs) {c : Container} (hc : c ∈ cs)
    {p : Place} (hp : place? c.root = some p) (x n : String) :
    ¬ ∃ c' ∈ cs, ∃ p', place? c'.root = some p' ∧
      (p ++ [x, n] <+: p' ∨ ∃ j < c'.sections, p ++ [x, n] = p' ++ [toString j]) := by
  rintro ⟨c', hc', p', hp', hq⟩
  -- either way the root of `c'` lies strictly below the root of `c`
  have hpre : p <+: p' ∧ p' ≠ p := by
    rcases hq with hq | ⟨j, -, hj⟩
    · refine ⟨(List.prefix_append p [x, n]).trans hq, fun h => ?_⟩
      have := hq.length_le
      simp only [h, List.length_append, List.length_cons, List.length_nil] at this
      omega
    · have hx : p ++ [x] = p' := by
        have h2 : (p ++ [x]) ++ [n] = p' ++ [toString j] := by simpa using hj
        exact (List.append_inj' h2 rfl).1
      refine ⟨hx ▸ List.prefix_append p [x], fun h => ?_⟩
      rw [h] at hx
      simp at hx
  by_cases hne : c'.name = c.name
  · obtain rfl := List.inj_on_of_nodup_map hL.names hc' hc hne
    exact hpre.2 (Option.some_inj.1 (hp'.symm.trans hp))
  · exact hL.apart c hc c' hc' (Ne.symm hne) p p' hp hp' hpre.1

/-- Opening counts each root's archived files: the gates start at the count, and opening only
makes the roots and their sections. -/
theorem Stocked.tallied {s : Config.Resolved} (hs : s.Valid) {d : Disk} (hd : d.Sound)
    {now : Nat} (hroots : Roots s.containers d now) (hst : Stocked s d) {cap : Nat}
    {probe : Probe} {W : World} (hW : World.launch s cap probe d now = some W) : W.store.Tallied := by
  have hI := Inv.launch hs hd hroots hW
  unfold World.launch at hW
  rcases hl : Repo.launch s (Tracker.empty cap) probe false (Host.create d now) with ⟨_ | r, h⟩ <;>
    rw [hl] at hW
  · cases hW
  cases hW
  obtain ⟨hset, -⟩ := Repo.launch_ok hl
  have hplace : ∀ e ∈ s.containers, (place? e.2).isSome := fun e he => place?_isSome (hs.roots e he)
  obtain ⟨hmap, hboxes, hsound, hgrow, -⟩ := setUpAll_ok hplace hd hset
  obtain ⟨hk', hgates⟩ := Container.setUpAll_tally hplace hd hst.keyed hset
  refine ⟨hI.layout, hsound, hk', fun c hc p hp => ?_⟩
  have hmem : (c.name, c.root) ∈ s.containers := hmap ▸ List.mem_map.2 ⟨c, hc, rfl⟩
  have hnames : c.sectionNames = (List.range (max s.sections 1)).map toString := by
    rw [Container.sectionNames, (hboxes c hc).1]
  have h0 : c.Tallies p d := ⟨hnames ▸ hst.tidy _ hmem p hp, hgates c hc⟩
  exact h0.grows hd hst.keyed hsound hk' hp hgrow fun x n _ => hI.layout.not_opened hc hp x n

/-- A repository whose counts are exact leaves a disk that a repository with the same roots and
sections can open over. -/
theorem Store.Tallied.stocked {st : Store} (hT : st.Tallied) {s : Config.Resolved}
    (hcs : s.containers = st.repo.containers.map fun c => (c.name, c.root))
    (hsec : ∀ c ∈ st.repo.containers, c.sections = max s.sections 1) : Stocked s st.host.disk where
  keyed := hT.keyed
  tidy e he p hp := by
    rw [hcs] at he
    obtain ⟨c, hc, rfl⟩ := List.mem_map.1 he
    have := (hT.boxes c hc p hp).tidy
    rwa [Container.sectionNames, hsec c hc] at this

/-! ## Sessions -/

/-- The worlds of a session: a repository opened over roots holding what a repository makes
there, then the caller's steps, chores of the background work, purges that end well, and the
same roots with the same sections opened again. Numbers are never drawn twice for one place, and an
expiration runs over a container whose archived files number fewer than `2^64`. -/
inductive Session : World → Prop
  | opened {s : Config.Resolved} {d : Disk} {cap : Nat} {probe : Probe} {now : Nat} {W : World} :
      s.Valid → d.Sound → Roots s.containers d now → Stocked s d →
      World.launch s cap probe d now = some W → Session W
  | step {W : World} (st : Step) : Session W → st.PlainClaims →
      (st.numbers → W.store.repo.ids.value + 1 < 2 ^ 64) →
      (∀ name, st = .expire name → W.store.Fits name) → Session (W.step st)
  | chore {W : World} (ch : Chore) : Session W → (∀ name, ch = .expire name → W.store.Fits name) →
      Session (W.after ((Action.runChore ch).exec W.store).2)
  | purge {W : World} {s : Store} : Session W → Action.purge.exec W.store = (.ok (), s) →
      Session ⟨s, [], []⟩
  | reopen {W W' : World} {s : Config.Resolved} {cap : Nat} {probe : Probe} {now : Nat} :
      Session W → s.Valid → s.containers = W.store.repo.containers.map (fun c => (c.name, c.root)) →
      (∀ c ∈ W.store.repo.containers, c.sections = max s.sections 1) →
      Roots s.containers W.store.host.disk now →
      World.launch s cap probe W.store.host.disk now = some W' → Session W'

/-- Along every session the invariant holds and the counts are exact. -/
theorem Session.tallied {W : World} (h : Session W) : Inv W ∧ W.store.Tallied := by
  induction h with
  | opened hs hd hroots hst hW => exact ⟨Inv.launch hs hd hroots hW, hst.tallied hs hd hroots hW⟩
  | step st _ hplain hids hfit ih =>
    exact ⟨ih.1.step st hplain hids, ih.1.step_tallied ih.2 st hplain hids hfit⟩
  | @chore W ch _ hfit ih =>
    have h := Action.counted_runChore W ch ⟨ih.1, ih.2⟩ hfit
    rw [Inv.after_eq h.1]
    exact h
  | @purge W s _ hpurge ih => exact ⟨ih.1.purged (Action.purged_of_ok ih.1.purgeable hpurge),
      ih.1.purge_tallied ih.2 hpurge⟩
  | reopen _ hs hcs hsec hroots hW ih =>
    have hst := ih.2.stocked hcs hsec
    exact ⟨Inv.launch hs ih.2.sound hroots hW, hst.tallied hs ih.2.sound hroots hW⟩

/-- The repository of `pooledSettings` opened over a fresh disk starts a session. -/
theorem pooledWorld_session : Session pooledWorld := by
  have hshort : ∀ q : Place, 3 ≤ q.length → Disk.fresh.node? q = none := fun q hq =>
    Disk.node?_of_deeper (by rintro rfl; simp at hq) fun e he => by
      simp only [Disk.fresh, scratchPlace, workPlace, List.mem_cons, List.not_mem_nil,
        or_false] at he
      rcases he with rfl | rfl | rfl <;> simp <;> omega
  have hroot : place? "c" = some ["work", "c"] := by decide
  refine .opened ⟨by decide, by decide, by decide⟩ (Disk.Sound.of_nodes (by decide +kernel))
    (Roots.fresh (fun p hp => by rw [hroot] at hp; cases hp; simp) 0) ⟨by decide, ?_⟩
    (Option.some_get _).symm
  simp only [pooledSettings, List.mem_singleton, forall_eq, hroot, Option.some.injEq, forall_eq']
  refine .of_bare (fun x rest hf => ?_) fun x n => hshort _ (by simp)
  obtain ⟨i, hi⟩ := hf
  rw [hshort _ (by simp)] at hi
  cases hi

end ClaimStore
