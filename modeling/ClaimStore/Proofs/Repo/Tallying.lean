import ClaimStore.Proofs.Disk.Counting
import ClaimStore.Proofs.Repo.AfterPurge
import ClaimStore.Proofs.Repo.Awaiting
import ClaimStore.Proofs.Gate.Readings
/-!
# The archived-file count stays exact

Each container's gate counts its archived files as a 64-bit counter that archiving raises, an
expiration lowers (never below zero), a purge clears and an opening sets by listing the archive
directories. `Store.Tallied` says the counter agrees with the listing on a keyed disk: below each
root lies a tree the repository makes (`Disk.Tidy`), and the gate holds the number of files in
the sections' archive directories, modulo `2 ^ 64`.

The tree matters because the counter is kept by what the operations report, not by looking: a
move counts one file only if the file arrived at an empty archived place, and a deletion
uncounts one only if the file lay in one of the sections. Every operation changes the disk below
one root only, so the other containers keep their counts (`Store.Tallied.change`), and at that
root it adds or removes a claim's file, moves one into the archive, or deletes an archived one.
-/

set_option autoImplicit false

namespace ClaimStore

open ClaimStore.Claim ClaimStore.FileSystem ClaimStore.FileSystem.Disk

/-- What a container's count rests on: its name, root and sections, and its counter. -/
def Container.tally (c : Container) : (String × String × Nat) × Nat := (c.shape, c.gate.archived)

/-- At the root `p`, the tree is one the repository makes and the gate counts the archived files
of the sections. -/
structure Container.Tallies (c : Container) (p : Place) (d : Disk) : Prop where
  tidy : d.Tidy p c.sectionNames
  counted : c.gate.archived = c.countArchived d % 2 ^ 64

/-- Every container's count is exact, on a sound keyed disk below roots laid out apart. -/
structure Store.Tallied (s : Store) : Prop where
  layout : Layout s.repo.containers
  sound : s.host.disk.Sound
  keyed : s.host.disk.Keyed
  boxes : ∀ c ∈ s.repo.containers, ∀ p, place? c.root = some p → c.Tallies p s.host.disk

namespace Container

variable {c c' : Container} {p : Place} {d d' : Disk}

theorem countArchived_of_tally (h : c'.tally = c.tally) (d : Disk) :
    c'.countArchived d = c.countArchived d := by
  have hroot : c'.root = c.root := congrArg (·.1.2.1) h
  have hsec : c'.sections = c.sections := congrArg (·.1.2.2) h
  simp [countArchived, archivedFiles, archiveDir, sectionPath, sectionNames, hroot, hsec]

theorem node?_of_nodes (hn : d'.nodes = d.nodes) (q : Place) : d'.node? q = d.node? q := by
  simp only [Disk.node?, hn]

theorem countArchived_of_nodes (hn : d'.nodes = d.nodes) : c.countArchived d' = c.countArchived d := by
  simp only [countArchived, archivedFiles, Disk.isDir, Disk.node?, Disk.children, hn]

/-- The count rests on the disk's entries only, and on the container's tally. -/
theorem Tallies.of_tree (h : c.Tallies p d) (hn : d'.nodes = d.nodes) (ht : c'.tally = c.tally) :
    c'.Tallies p d' := by
  have hsec : c'.sections = c.sections := congrArg (·.1.2.2) ht
  refine ⟨?_, ?_⟩
  · rw [sectionNames, hsec]
    exact h.tidy.mono (fun x rest hq => by rwa [HasFile, node?_of_nodes hn] at hq)
      fun x n _ hq => by rwa [node?_of_nodes hn] at hq
  · rw [show c'.gate.archived = c.gate.archived from congrArg (·.2) ht,
      countArchived_of_tally ht, countArchived_of_nodes hn]
    exact h.counted

/-- A change below other roots only. -/
theorem Tallies.congr (h : c.Tallies p d) (hs : d.Sound) (hk : d.Keyed) (hs' : d'.Sound)
    (hk' : d'.Keyed) (hp : place? c.root = some p)
    (hsame : ∀ q, Below p q → d'.node? q = d.node? q) : c.Tallies p d' where
  tidy := h.tidy.mono
    (fun x rest hq => by rwa [HasFile, ← hsame _ (below_append p (by simp))])
    (fun x n _ hq => by rwa [← hsame _ (below_append p (by simp))])
  counted := by
    rw [h.counted, countArchived_congr hs hk hs' hk' hp fun x _ n => by
      simp only [HasFile, hsame (p ++ [x, Archive.dirName, n]) (below_append p (by simp))]]

/-- A claim's file made or removed in a section. -/
theorem Tallies.live (h : c.Tallies p d) (hs : d.Sound) (hk : d.Keyed) (hs' : d'.Sound)
    (hk' : d'.Keyed) (hp : place? c.root = some p) {x0 n0 : String}
    (hnode : ∀ q, q ≠ p ++ [x0, n0] → d'.node? q = d.node? q)
    (hL : d'.node? (p ++ [x0, n0]) = none ∨
      x0 ∈ c.sectionNames ∧ ¬ d.HasFile (p ++ [x0, Archive.dirName, n0]) ∧
        d'.HasFile (p ++ [x0, n0])) :
    c.Tallies p d' where
  tidy := by
    rcases hL with hL | ⟨hx0, hfree, hL⟩
    · refine h.tidy.mono (fun x rest hq => ?_) fun x n _ hq => ?_
      · by_cases hq' : p ++ x :: rest = p ++ [x0, n0]
        · obtain ⟨i, hi⟩ := hq
          rw [hq', hL] at hi
          cases hi
        · rwa [HasFile, ← hnode _ hq']
      · by_cases hq' : p ++ [x, n] = p ++ [x0, n0]
        · rw [hq', hL] at hq
          cases hq
        · rwa [← hnode _ hq']
    · exact h.tidy.add hx0 hfree hnode hL
  counted := by
    rw [h.counted, countArchived_congr hs hk hs' hk' hp fun x _ n => by
      simp only [HasFile, hnode (p ++ [x, Archive.dirName, n]) (by simp)]]

/-- A claim's file moved into its section's archive directory: one more file is counted. -/
theorem Tallies.move (h : c.Tallies p d) (hs : d.Sound) (hk : d.Keyed) (hs' : d'.Sound)
    (hk' : d'.Keyed) (hp : place? c.root = some p) {x0 n0 : String}
    (hlive : d.HasFile (p ++ [x0, n0]))
    (hnode : ∀ q, q ≠ p ++ [x0, n0] → q ≠ p ++ [x0, Archive.dirName, n0] →
      q ≠ p ++ [x0, Archive.dirName] → d'.node? q = d.node? q)
    (hL : d'.node? (p ++ [x0, n0]) = none) (hT : d'.HasFile (p ++ [x0, Archive.dirName, n0]))
    (hA : d'.node? (p ++ [x0, Archive.dirName]) = some .dir) :
    ({ c with gate := c.gate.incArchived } : Container).Tallies p d' where
  tidy := h.tidy.move hlive hnode hL hA
  counted := by
    have hcount : c.countArchived d' = c.countArchived d + 1 := by
      refine countArchived_add hs hk hs' hk' hp (h.tidy.owned x0 [n0] hlive)
        (h.tidy.fresh x0 n0 hlive) hT fun x _ n hne => ?_
      have hxT : p ++ [x, Archive.dirName, n] ≠ p ++ [x0, Archive.dirName, n0] := by
        simpa [not_and_or] using hne
      simp only [HasFile, hnode _ (by simp) hxT (by simp)]
    show (c.gate.archived + 1) % 2 ^ 64 = c.countArchived d' % 2 ^ 64
    rw [h.counted, hcount, Nat.mod_add_mod]

/-- An archived file deleted: one file fewer is counted, and the counter, exact below `2 ^ 64`,
does not saturate. -/
theorem Tallies.unarchive (h : c.Tallies p d) (hs : d.Sound) (hk : d.Keyed) (hs' : d'.Sound)
    (hk' : d'.Keyed) (hp : place? c.root = some p) (hlt : c.countArchived d < 2 ^ 64)
    {x0 n0 : String} (hT : d.HasFile (p ++ [x0, Archive.dirName, n0]))
    (hnode : ∀ q, q ≠ p ++ [x0, Archive.dirName, n0] → d'.node? q = d.node? q)
    (hnone : d'.node? (p ++ [x0, Archive.dirName, n0]) = none) :
    ({ c with gate := c.gate.decArchived } : Container).Tallies p d' ∧
      c.countArchived d' < 2 ^ 64 := by
  have hcount : c.countArchived d = c.countArchived d' + 1 := by
    refine countArchived_add hs' hk' hs hk hp (h.tidy.owned x0 _ hT) (by simp [HasFile, hnone]) hT
      fun x _ n hne => ?_
    have hxT : p ++ [x, Archive.dirName, n] ≠ p ++ [x0, Archive.dirName, n0] := by
      simpa [not_and_or] using hne
    simp only [HasFile, hnode _ hxT]
  refine ⟨⟨h.tidy.mono (fun x rest hq => ?_) fun x n _ hq => ?_, ?_⟩, by omega⟩
  · by_cases hq' : p ++ x :: rest = p ++ [x0, Archive.dirName, n0]
    · obtain ⟨i, hi⟩ := hq
      rw [hq', hnone] at hi
      cases hi
    · rwa [HasFile, ← hnode _ hq']
  · rwa [← hnode _ (by simp)]
  · show c.gate.archived - 1 = c.countArchived d' % 2 ^ 64
    rw [h.counted, Nat.mod_eq_of_lt hlt, Nat.mod_eq_of_lt (by omega)]
    omega

/-- Directories made anywhere but directly in a section keep the count. -/
theorem Tallies.grows (h : c.Tallies p d) (hs : d.Sound) (hk : d.Keyed) (hs' : d'.Sound)
    (hk' : d'.Keyed) (hp : place? c.root = some p) {S : Place → Prop} (hg : d.Grows d' S)
    (hS : ∀ x n, n ≠ Archive.dirName → ¬ S (p ++ [x, n])) : c.Tallies p d' where
  tidy := h.tidy.mono (fun _ _ hq => hg.hasFile.1 hq)
    fun x n hn hq => by rwa [← hg.of_not (hS x n hn)]
  counted := by rw [h.counted, countArchived_of_grows hs hk hs' hk' hg hp]

end Container

/-- A place on the way to a root of the layout, or below it, lies below no other root. -/
theorem Layout.below_other {cs : List Container} (hL : Layout cs) {c c' : Container} (hc : c ∈ cs)
    (hc' : c' ∈ cs) (hne : c.name ≠ c'.name) {p p' : Place} (hp : place? c.root = some p)
    (hp' : place? c'.root = some p') {q : Place} (hq : p' <+: q) : ¬ (q <+: p ∨ p <+: q) := by
  rintro (h | h)
  · exact hL.apart c' hc' c hc (Ne.symm hne) p' p hp' hp (hq.trans h)
  · rcases List.prefix_or_prefix_of_prefix hq h with h' | h'
    · exact hL.apart c' hc' c hc (Ne.symm hne) p' p hp' hp h'
    · exact hL.apart c hc c' hc' hne p p' hp hp' h'

namespace Store.Tallied

variable {s s' : Store}

theorem shape_of_tally {cs cs' : List Container}
    (ht : cs'.map Container.tally = cs.map Container.tally) :
    cs'.map Container.shape = cs.map Container.shape := by
  simpa [List.map_map, Function.comp_def, Container.tally] using congrArg (List.map Prod.fst) ht

/-- The disk's entries and the containers' tallies unchanged. -/
theorem of_tree (h : s.Tallied) (hn : s'.host.disk.nodes = s.host.disk.nodes)
    (ht : s'.repo.containers.map Container.tally = s.repo.containers.map Container.tally) :
    s'.Tallied where
  layout := h.layout.of_shape (shape_of_tally ht)
  sound := h.sound.of_node? (Container.node?_of_nodes hn)
  keyed := h.keyed.of_sublist (by rw [hn])
  boxes c hc p hp := by
    have hmem : c.tally ∈ s.repo.containers.map Container.tally := ht ▸ List.mem_map_of_mem hc
    obtain ⟨c0, hc0, h0⟩ := List.mem_map.1 hmem
    have hroot : c0.root = c.root := congrArg (·.1.2.1) h0
    exact (h.boxes c0 hc0 p (hroot ▸ hp)).of_tree hn h0.symm

/-- An operation at one root: the disk changes only on the way to the root `p` of `box` or below
it, and each container afterwards sits at that root with its count exact, or is another one with
its tally unchanged. -/
theorem change (h : s.Tallied) (hL' : Layout s'.repo.containers) (hs' : s'.host.disk.Sound)
    (hk' : s'.host.disk.Keyed) {box : Container} (hbox : box ∈ s.repo.containers) {p : Place}
    (hp : place? box.root = some p)
    (hout : ∀ q, ¬ (q <+: p ∨ p <+: q) → s'.host.disk.node? q = s.host.disk.node? q)
    (hcs : ∀ c ∈ s'.repo.containers, c.root = box.root ∧ c.Tallies p s'.host.disk ∨
      c.name ≠ box.name ∧ ∃ c0 ∈ s.repo.containers, c0.tally = c.tally) : s'.Tallied where
  layout := hL'
  sound := hs'
  keyed := hk'
  boxes c hc p' hp' := by
    rcases hcs c hc with ⟨hroot, ht⟩ | ⟨hne, c0, hc0, h0⟩
    · rw [hroot, hp] at hp'
      cases hp'
      exact ht
    · have hroot : c0.root = c.root := congrArg (·.1.2.1) h0
      have hname : c0.name = c.name := congrArg (·.1.1) h0
      have hp0 : place? c0.root = some p' := hroot ▸ hp'
      have hne0 : box.name ≠ c0.name := fun e => hne (hname ▸ e.symm)
      -- the other root lies apart from `p`, so nothing below it changed
      refine ((h.boxes c0 hc0 p' hp0).congr h.sound h.keyed hs' hk' hp0 fun q hq => ?_).of_tree rfl
        h0.symm
      exact hout q (h.layout.below_other hbox hc0 hne0 hp hp0 hq.1)

/-- An operation at the root `p` of `box` that keeps the containers. -/
theorem change_disk (h : s.Tallied) (hs' : s'.host.disk.Sound) (hk' : s'.host.disk.Keyed)
    {box : Container} (hbox : box ∈ s.repo.containers) {p : Place} (hp : place? box.root = some p)
    (hout : ∀ q, ¬ (q <+: p ∨ p <+: q) → s'.host.disk.node? q = s.host.disk.node? q)
    (hcs : s'.repo.containers = s.repo.containers) (ht : box.Tallies p s'.host.disk) :
    s'.Tallied :=
  h.change (hcs ▸ h.layout) hs' hk' hbox hp hout fun c hc => by
    rw [hcs] at hc
    by_cases hn : c.name = box.name
    · obtain rfl := List.inj_on_of_nodup_map h.layout.names hc hbox hn
      exact .inl ⟨rfl, ht⟩
    · exact .inr ⟨hn, c, hc, rfl⟩

/-- An operation at the root `p` of `box` that replaces it by `box'` of the same shape. -/
theorem change_box (h : s.Tallied) (hs' : s'.host.disk.Sound) (hk' : s'.host.disk.Keyed)
    {box : Container} (hbox : box ∈ s.repo.containers) {p : Place} (hp : place? box.root = some p)
    (hout : ∀ q, ¬ (q <+: p ∨ p <+: q) → s'.host.disk.node? q = s.host.disk.node? q)
    {box' : Container} (ht : box'.Tallies p s'.host.disk) (hshape : box'.shape = box.shape)
    (hcs : s'.repo.containers = (s.repo.setContainer box').containers) : s'.Tallied := by
  have hname : box'.name = box.name := congrArg (·.1) hshape
  have hfind : s.repo.container? box'.name = some box := by
    rw [hname]
    exact h.layout.find?_name hbox
  refine h.change (hcs ▸ h.layout.of_shape (Repo.shape_setContainer h.layout.names hfind hshape))
    hs' hk' hbox hp hout fun c hc => ?_
  rw [hcs] at hc
  obtain ⟨c0, hc0, rfl⟩ := List.mem_map.1 hc
  by_cases hn : c0.name = box'.name
  · rw [if_pos (beq_iff_eq.2 hn)]
    exact .inl ⟨congrArg (·.2.1) hshape, ht⟩
  · rw [if_neg (by simpa using hn)]
    exact .inr ⟨hname ▸ hn, c0, hc0, rfl⟩

end Store.Tallied

/-! ## Archiving a claim's file -/

section Archiving

variable {box : Container} {p : Place} {r : Resource} {d d' : Disk}

/-- Making a section's archive directory leaves the live place of a claim whose id is not the
archive directory's name. -/
theorem node?_live_of_makeDirs (hs : d.Sound) (hp : place? box.root = some p) (hr : r.Plain)
    (hid : r.id ≠ Archive.dirName) {d0 : Disk}
    (hm : d.makeDirs (p ++ [r.sectionName, Archive.dirName]) = .ok d0) :
    d0.node? (livePlace p r) = d.node? (livePlace p r) := by
  have hplain : ∀ s ∈ p ++ [r.sectionName, Archive.dirName], Path.Plain s := fun s hs' =>
    plain_archivePlace_of_root (place?_plain hp) hr s (by
      rw [archivePlace, show [r.sectionName, Archive.dirName, r.id] =
        [r.sectionName, Archive.dirName] ++ [r.id] from rfl, ← List.append_assoc]
      exact List.mem_append_left _ hs')
  rw [(makeDirs_eq_ok hs hplain hm).2.2, if_neg]
  rintro ⟨-, hpre, -⟩
  have := hpre.eq_of_length (by simp [livePlace])
  simp [livePlace, hid] at this

/-- A move `archiveFile` reports on a tidy tree took a file from the claim's live place, into an
archive directory: the claim's archive place was clear, and the disk changed as a reclaim by
archiving changes it. -/
theorem archiveFile_true {names : List String} (h : d.Tidy p names) (hs : d.Sound) (hk : d.Keyed)
    (hp : place? box.root = some p) (hr : r.Plain)
    (hmv : archiveFile d (box.claimPath r) = .ok (true, d')) :
    r.id ≠ Archive.dirName ∧ d.HasFile (livePlace p r) ∧ d'.Keyed ∧
      ∀ q, d'.node? q = reclaimedNode d true p r q := by
  have hsec : r.sectionName ≠ Archive.dirName := fun he => by
    rw [archiveFile_of_archived hp hr he] at hmv
    simp at hmv
  obtain ⟨d0, hmv0, hd0⟩ := ((archiveFile_moved hp hr hmv).resolve_left fun h1 => by
    cases h1.1).2
  obtain ⟨-, ⟨n, hn⟩, hcase⟩ := rename_eq_ok hmv0
  -- the live place is no prefix of the archive place, so the claim's id is not `archive`
  have hid : r.id ≠ Archive.dirName := by
    intro he
    rcases hcase with ⟨heq, -⟩ | ⟨hpre, -⟩
    · simpa [livePlace, archivePlace] using congrArg List.length heq
    · exact hpre ⟨[r.id], by simp [livePlace, archivePlace, he]⟩
  have hL0 : d0.node? (livePlace p r) = d.node? (livePlace p r) := by
    rcases hd0 with rfl | hm
    · rfl
    · exact node?_live_of_makeDirs hs hp hr hid hm
  rw [hL0] at hn
  obtain ⟨i, rfl⟩ : ∃ i, n = .file i := by
    rcases n with _ | i
    · exact absurd hn (h.flat _ _ hid)
    · exact ⟨i, rfl⟩
  have hb : archiveBlocked d p r = false := by
    refine Bool.eq_false_iff.2 fun hb => ?_
    obtain ⟨e, he⟩ := archiveFile_of_blocked hs hp hr hsec hn hb
    rw [he] at hmv
    cases hmv
  obtain ⟨d'', hmv', hk', hnode⟩ := archiveFile_of_clear hs hk hp hr hsec hid hn hb
  rw [hmv] at hmv'
  cases hmv'
  exact ⟨hid, ⟨i, hn⟩, hk', hnode⟩

/-- A move reported by `archiveFile` is counted: the gate, one higher, counts the files afresh. -/
theorem Container.Tallies.archive (h : box.Tallies p d) (hs : d.Sound) (hk : d.Keyed)
    (hs' : d'.Sound) (hp : place? box.root = some p) (hr : r.Plain)
    (hmv : archiveFile d (box.claimPath r) = .ok (true, d')) :
    ({ box with gate := box.gate.incArchived } : Container).Tallies p d' := by
  obtain ⟨hid, ⟨i, hi⟩, hk', hnode⟩ := archiveFile_true h.tidy hs hk hp hr hmv
  have hlive : d.HasFile (p ++ [r.sectionName, r.id]) := ⟨i, hi⟩
  refine h.move hs hk hs' hk' hp hlive (fun q hL hT hA => ?_) ?_ ⟨i, ?_⟩ ?_
  · rw [hnode, reclaimedNode_of_ne hL hT hA]
  · simp [hnode, reclaimedNode, livePlace]
  · rw [hnode, reclaimedNode, if_neg (by simp [livePlace]), if_pos ⟨rfl, rfl⟩]
    exact hi
  · rw [hnode, reclaimedNode, if_neg (by simpa [livePlace] using Ne.symm hid),
      if_neg (by simp [archivePlace]), if_pos ⟨rfl, rfl⟩]

end Archiving

/-- The archived files of container `name` number fewer than `2^64`. -/
def Store.Fits (s : Store) (name : String) : Prop :=
  ∀ box, s.repo.container? name = some box → box.countArchived s.host.disk < 2 ^ 64

/-- Seen from `W`, the store satisfies the invariant of runs and its counts are exact. -/
def World.Counted (W : World) (s : Store) : Prop := Inv { W with store := s } ∧ s.Tallied

/-! ## Expiration passes

A pass deletes archived files one at a time, lowering the gate's counter with each deletion that
succeeds. Below `2 ^ 64` files the counter is the count itself, so it never saturates: every
primitive step of a pass keeps `Sweep.Exact`, and so, by induction over the pass, does the whole
pass (`Container.expire_exact`).
-/

namespace Sweep

/-- A pass's state at the root `p`: on a sound keyed disk the container's count is exact and
fits in 64 bits. -/
structure Exact (p : Place) (s : Sweep) : Prop where
  root : place? s.container.root = some p
  sound : s.disk.Sound
  keyed : s.disk.Keyed
  tallies : s.container.Tallies p s.disk
  fits : s.container.countArchived s.disk < 2 ^ 64

variable {p : Place}

theorem Exact.of_tally {s s' : Sweep} (h : Exact p s) (hd : s'.disk = s.disk)
    (ht : s'.container.tally = s.container.tally) : Exact p s' where
  root := (congrArg (·.1.2.1) ht : s'.container.root = s.container.root) ▸ h.root
  sound := hd ▸ h.sound
  keyed := hd ▸ h.keyed
  tallies := hd ▸ h.tallies.of_tree rfl ht
  fits := by rw [hd, Container.countArchived_of_tally ht]; exact h.fits

/-- Deleting an archived file uncounts it. -/
theorem exact_delete {s : Sweep} (h : Exact p s) {e : Archive.Entry}
    (he : Archived s.container.root e) : Exact p (s.delete e).2 := by
  obtain ⟨p', x, n, hp', hpath⟩ := he
  rw [h.root] at hp'
  cases hp'
  unfold delete
  split
  · next d hd =>
    rw [Disk.removeFileAt, placeOf_of_place? hpath] at hd
    simp only [bind, Except.bind] at hd
    obtain ⟨⟨i, hi⟩, hs', -, hnode⟩ := Disk.removeFile_eq_ok h.sound hd
    have hk' : d.Keyed := by
      rw [removeFile_eq_drop hd]
      exact h.keyed.drop _
    obtain ⟨ht, hlt⟩ := h.tallies.unarchive h.sound h.keyed hs' hk' h.root h.fits ⟨i, hi⟩
      (fun q hq => by rw [hnode, if_neg hq]) (by rw [hnode, if_pos rfl])
    exact ⟨h.root, hs', hk', ht, hlt⟩
  · exact h

theorem exact_archived {s : Sweep} (h : Exact p s) (q : Fifo Archive.Entry) :
    Exact p { s with container := { s.container with archived := q } } :=
  h.of_tally rfl rfl

theorem exact_settle {s : Sweep} (h : Exact p s) (r : Expiry) (oldest : Nat) :
    Exact p (s.settle r oldest).2 :=
  h.of_tally rfl rfl

theorem Exact.of_pair {α : Type} {s' : Sweep} {a : α} {A : α × Sweep} (h : A = (a, s'))
    (hA : Exact p A.2) : Exact p s' := by
  subst h
  exact hA

theorem exact_of_ite {s0 s1 : Sweep} {r0 r1 : Expiry} {c : Prop} [Decidable c]
    {A : Expiry × Sweep} (h : (if c then A else (r0, s0)) = (r1, s1)) (h0 : Exact p s0)
    (hA : Exact p A.2) : Exact p s1 := by
  split at h
  · subst h
    exact hA
  · rw [← (Prod.mk.inj h).2]
    exact h0

theorem exact_poll_delete {s : Sweep} (h : Exact p s) {head : Archive.Entry}
    (hpeek : s.container.archived.peek = some head) (hf : s.container.Filed) :
    Exact p (({ s with container := { s.container with
      archived := s.container.archived.poll.2 } } : Sweep).delete head).2 := by
  have hhead : head ∈ s.container.archived.items := by
    simp only [Fifo.peek] at hpeek
    exact List.mem_of_mem_head? hpeek
  exact exact_delete (exact_archived h _) (hf head hhead)

-- the queue's entries name archived places, which `Confined` carries from step to step
theorem exact_fromQueue (threshold toFree now fuel : Nat) (r : Expiry) (s : Sweep) :
    s.container.Filed → Exact p s → Exact p (fromQueue threshold toFree now fuel r s).2.2 := by
  fun_induction fromQueue threshold toFree now fuel r s
  case case1 => exact fun _ h => h
  case case2 => exact fun _ h => h
  case case3 s0 head hpeek _ r1 s1 hfront _ _ _ _ ih =>
    intro hf h
    have hc := confined_of_ite hfront (confined_poll_delete s0 hpeek hf)
    exact ih (hc.filed hf) (exact_of_ite hfront h (exact_poll_delete h hpeek hf))
  case case4 s0 head hpeek _ r1 s1 hfront _ _ _ _ r2 s2 hsettle =>
    intro hf h
    exact Exact.of_pair hsettle (exact_settle (exact_of_ite hfront h (exact_poll_delete h hpeek hf)) _ _)
  case case5 s0 head hpeek _ r1 s1 hfront _ _ r2 s2 hsettle =>
    intro hf h
    exact Exact.of_pair hsettle (exact_settle (exact_of_ite hfront h (exact_poll_delete h hpeek hf)) _ _)
  case case6 s0 head hpeek _ r1 s1 hfront _ ih =>
    intro hf h
    have hc := confined_of_ite hfront (confined_poll_delete s0 hpeek hf)
    exact ih (hc.filed hf) (exact_of_ite hfront h (exact_poll_delete h hpeek hf))

theorem exact_sweepExpired (threshold : Nat) (overBudget : Bool) (l : List Archive.Entry)
    (acc : Expiry × Sweep × List Archive.Entry × Nat)
    (hl : ∀ e ∈ l, Archived acc.2.1.container.root e) :
    Exact p acc.2.1 → Exact p (sweepExpired threshold overBudget l acc).2.1 := by
  fun_induction sweepExpired threshold overBudget l acc
  case case1 => exact id
  case case2 e rest r s kept oldest _ ok s' hdel ih =>
    intro h
    have hd := exact_delete h (hl e List.mem_cons_self)
    rw [hdel] at hd
    have hroot := (Confined.of_pair hdel (confined_delete s (hl e List.mem_cons_self))).root
    exact ih (fun e' he' => hroot ▸ hl e' (List.mem_cons_of_mem _ he')) hd
  case case3 ih => exact ih fun e' he' => hl e' (List.mem_cons_of_mem _ he')

theorem exact_sweepSpace (probe : Probe) (toFree minUsable : Nat)
    (l : List (Nat × Archive.Entry)) (acc : Expiry × Sweep × Nat)
    (hl : ∀ x ∈ l, Archived acc.2.1.container.root x.2) :
    Exact p acc.2.1 → Exact p (sweepSpace probe toFree minUsable l acc).2.2.1 := by
  fun_induction sweepSpace probe toFree minUsable l acc
  case case1 => exact id
  case case2 => exact id
  case case3 i e rest r s used _ ok s' hdel _ _ _ _ =>
    intro h
    have hd := exact_delete h (hl (i, e) List.mem_cons_self)
    rwa [hdel] at hd
  case case4 i e rest r s used _ ok s' hdel _ _ _ _ _ =>
    intro h
    have hd := exact_delete h (hl (i, e) List.mem_cons_self)
    rwa [hdel] at hd
  case case5 i e rest r s used _ ok s' hdel _ _ _ _ _ ih =>
    intro h
    have hd := exact_delete h (hl (i, e) List.mem_cons_self)
    rw [hdel] at hd
    have hroot := (Confined.of_pair hdel (confined_delete s (hl (i, e) List.mem_cons_self))).root
    exact ih (fun x hx => hroot ▸ hl x (List.mem_cons_of_mem _ hx)) hd
  case case6 i e rest r s used _ ok s' hdel _ _ ih =>
    intro h
    have hd := exact_delete h (hl (i, e) List.mem_cons_self)
    rw [hdel] at hd
    have hroot := (Confined.of_pair hdel (confined_delete s (hl (i, e) List.mem_cons_self))).root
    exact ih (fun x hx => hroot ▸ hl x (List.mem_cons_of_mem _ hx)) hd

theorem Exact.of_fromQueue {threshold toFree now fuel : Nat} {r r' : Expiry} {s s' : Sweep}
    {o : Option Expiry} (h : fromQueue threshold toFree now fuel r s = (o, r', s'))
    (hf : s.container.Filed) (hE : Exact p s) : Exact p s' := by
  have h1 := exact_fromQueue threshold toFree now fuel r s hf hE
  rw [h] at h1
  exact h1

theorem Exact.of_sweepExpired {threshold : Nat} {overBudget : Bool} {l : List Archive.Entry}
    {r0 : Expiry} {s0 : Sweep} {r : Expiry} {s : Sweep} {kept : List Archive.Entry} {oldest : Nat}
    (h : sweepExpired threshold overBudget l (r0, s0, [], noAge) = (r, s, kept, oldest))
    (hl : ∀ e ∈ l, Archived s0.container.root e) (hE : Exact p s0) : Exact p s := by
  have h1 := exact_sweepExpired threshold overBudget l (r0, s0, [], noAge) hl hE
  rw [h] at h1
  exact h1

theorem Exact.of_sweepSpace {probe : Probe} {toFree minUsable : Nat}
    {l : List (Nat × Archive.Entry)} {r0 : Expiry} {s0 : Sweep} {o : IoResult Unit} {r : Expiry}
    {s : Sweep} {used : Nat} (h : sweepSpace probe toFree minUsable l (r0, s0, 0) = (o, r, s, used))
    (hl : ∀ x ∈ l, Archived s0.container.root x.2) (hE : Exact p s0) : Exact p s := by
  have h1 := exact_sweepSpace probe toFree minUsable l (r0, s0, 0) hl hE
  rw [h] at h1
  exact h1

end Sweep

/-- A whole pass keeps the count exact: the queue, then the scan and the deletions for space,
then the queue refilled. -/
theorem Container.expire_exact {c : Container} {d : Disk} (probe : Probe) (now retention : Nat)
    {p : Place} (hf : c.Filed) (h : Sweep.Exact p ⟨c, d⟩) :
    Sweep.Exact p ⟨(c.expire d probe now retention).2.1, (c.expire d probe now retention).2.2⟩ := by
  fun_cases Container.expire c d probe now retention
  case case1 => exact h
  case case2 => exact h
  case case3 hq => exact Sweep.Exact.of_fromQueue hq hf h
  case case4 hq _ r2 s3 kept _ hexp _ r1 s2 used _ hspace =>
    have h1 := Sweep.Confined.of_fromQueue hq hf
    have hscan := Sweep.scan_archived (h1.root ▸ h.root) (h1.sound h.sound)
    obtain ⟨h2, hkept⟩ := Sweep.Confined.of_sweepExpired hexp hscan
    refine Sweep.Exact.of_sweepSpace hspace (fun x hx => ?_)
      (Sweep.Exact.of_sweepExpired hexp hscan (Sweep.Exact.of_fromQueue hq hf h))
    obtain ⟨⟨e, i⟩, he, rfl⟩ := List.mem_map.1 hx
    rw [h2.root]
    exact hscan e (hkept e (List.mem_mergeSort.1 (List.fst_mem_of_mem_zipIdx he)))
  case case5 hq _ r2 s3 kept _ hexp _ r1 s2 used _ _ q n hfold _ r s hsettle hspace =>
    have h1 := Sweep.Confined.of_fromQueue hq hf
    have hscan := Sweep.scan_archived (h1.root ▸ h.root) (h1.sound h.sound)
    obtain ⟨h2, hkept⟩ := Sweep.Confined.of_sweepExpired hexp hscan
    have h3 := Sweep.Exact.of_sweepSpace hspace (fun x hx => by
        obtain ⟨⟨e, i⟩, he, rfl⟩ := List.mem_map.1 hx
        rw [h2.root]
        exact hscan e (hkept e (List.mem_mergeSort.1 (List.fst_mem_of_mem_zipIdx he))))
      (Sweep.Exact.of_sweepExpired hexp hscan (Sweep.Exact.of_fromQueue hq hf h))
    exact Sweep.Exact.of_pair hsettle (Sweep.exact_settle (Sweep.exact_archived h3 _) _ _)

theorem Gate.archived_signalReady (g : Gate) (reading : IoResult Nat) (now : Nat) :
    (g.signalReady reading now).archived = g.archived :=
  g.record_archived reading now

/-- A scheduled pass is skipped, or is the pass run now; either way the gate then takes a reading,
which leaves its counter. -/
theorem Container.expireScheduled_pass (c : Container) (d : Disk) (probe : Probe)
    (now retention : Nat) :
    (∃ g : Gate, g.archived = c.gate.archived ∧
        (c.expireScheduled d probe now retention).2.1 = { c with gate := g } ∧
        (c.expireScheduled d probe now retention).2.2 = d) ∨
      ∃ g : Gate, g.archived = (c.expire d probe now retention).2.1.gate.archived ∧
        (c.expireScheduled d probe now retention).2.1 =
          { (c.expire d probe now retention).2.1 with gate := g } ∧
        (c.expireScheduled d probe now retention).2.2 = (c.expire d probe now retention).2.2 := by
  fun_cases Container.expireScheduled c d probe now retention
  case case1 outcome c' d' hpass reading =>
    have hg := Gate.archived_signalReady c'.gate reading now
    split at hpass
    · -- archiving is off
      obtain ⟨rfl, rfl, rfl⟩ : _ = outcome ∧ _ = c' ∧ _ = d' := by simpa using hpass
      exact .inl ⟨_, hg, rfl, rfl⟩
    split at hpass
    · split at hpass
      · -- the reading failed
        obtain ⟨rfl, rfl, rfl⟩ : _ = outcome ∧ _ = c' ∧ _ = d' := by simpa using hpass
        exact .inl ⟨_, hg, rfl, rfl⟩
      split at hpass
      · -- the oldest file is young and space suffices
        obtain ⟨rfl, rfl, rfl⟩ : _ = outcome ∧ _ = c' ∧ _ = d' := by simpa using hpass
        exact .inl ⟨_, hg, rfl, rfl⟩
      · exact .inr ⟨_, by rw [hg, hpass], by rw [hpass], by rw [hpass]⟩
    · exact .inr ⟨_, by rw [hg, hpass], by rw [hpass], by rw [hpass]⟩

theorem Container.expireScheduled_deletes (c : Container) (d : Disk) (probe : Probe)
    (now retention : Nat) :
    Sweep.Deletes ⟨c, d⟩ ⟨(c.expireScheduled d probe now retention).2.1,
      (c.expireScheduled d probe now retention).2.2⟩ := by
  rcases c.expireScheduled_pass d probe now retention with ⟨g, -, h1, h2⟩ | ⟨g, -, h1, h2⟩
  · rw [h1, h2]
    exact ⟨rfl, rfl, rfl, rfl, fun _ => .refl _⟩
  · rw [h1, h2]
    have h := c.expire_deletes d probe now retention
    exact ⟨h.name, h.root, h.sections, h.bin, h.unlinked⟩

theorem Container.expireScheduled_confined (c : Container) (d : Disk) (probe : Probe)
    (now retention : Nat) {root : Place} (hroot : place? c.root = some root) (hf : c.Filed)
    (hs : d.Sound) :
    Sweep.Confined ⟨c, d⟩ ⟨(c.expireScheduled d probe now retention).2.1,
      (c.expireScheduled d probe now retention).2.2⟩ := by
  rcases c.expireScheduled_pass d probe now retention with ⟨g, -, h1, h2⟩ | ⟨g, -, h1, h2⟩
  · rw [h1, h2]
    exact ⟨rfl, id, id, fun _ _ _ _ _ => rfl⟩
  · rw [h1, h2]
    have h := c.expire_confined d probe now retention hroot hf hs
    exact ⟨h.root, h.filed, h.sound, h.node⟩

theorem Container.expireScheduled_exact {c : Container} {d : Disk} (probe : Probe)
    (now retention : Nat) {p : Place} (hf : c.Filed) (h : Sweep.Exact p ⟨c, d⟩) :
    Sweep.Exact p ⟨(c.expireScheduled d probe now retention).2.1,
      (c.expireScheduled d probe now retention).2.2⟩ := by
  rcases c.expireScheduled_pass d probe now retention with ⟨g, hg, h1, h2⟩ | ⟨g, hg, h1, h2⟩
  · refine h.of_tally h2 ?_
    rw [h1]
    exact Prod.ext rfl hg
  · refine (c.expire_exact probe now retention hf h).of_tally h2 ?_
    rw [h1]
    exact Prod.ext rfl hg

namespace Action

theorem keeps_expireScheduled (name : String) : (expireWith name Container.expireScheduled).Keeps :=
  keeps_expireWith_of Container.expireScheduled_deletes
    (fun c d probe now retention _ hroot hf hs => c.expireScheduled_confined d probe now retention
      hroot hf hs) name

section Counting

variable (W : World)

/-- An expiration by a pass that keeps a count exact, over a container whose count fits in
64 bits, keeps the counts exact. -/
theorem counted_expireWith
    {pass : Container → Disk → Probe → Nat → Nat → IoResult Expiry × Container × Disk}
    (hdel : ∀ c d probe now retention,
      Sweep.Deletes ⟨c, d⟩ ⟨(pass c d probe now retention).2.1, (pass c d probe now retention).2.2⟩)
    (hconf : ∀ c d probe now retention root, place? c.root = some root → c.Filed → d.Sound →
      Sweep.Confined ⟨c, d⟩ ⟨(pass c d probe now retention).2.1, (pass c d probe now retention).2.2⟩)
    (hexact : ∀ c d probe now retention p, c.Filed → Sweep.Exact p ⟨c, d⟩ →
      Sweep.Exact p ⟨(pass c d probe now retention).2.1, (pass c d probe now retention).2.2⟩)
    (name : String) {s : Store} (h : W.Counted s)
    (hfit : s.Fits name) :
    W.Counted ((expireWith name pass).exec s).2 := by
  refine ⟨keeps_expireWith_of hdel hconf name _ h.1, ?_⟩
  obtain ⟨hI, hT⟩ := h
  unfold expireWith
  rw [exec_bind, exec_container]
  cases hbox : s.repo.container? name with
  | none => exact hT
  | some box =>
    obtain ⟨hmem, -⟩ := Repo.mem_of_container? hbox
    obtain ⟨p, hp⟩ := Option.isSome_iff_exists.1 (hI.layout.rooted box hmem)
    simp only [exec_bind, exec_repo, exec_host]
    have hE := hexact box s.host.disk s.repo.probe s.host.now
      (s.repo.settings.retentionNanos / 1000000) p (hI.filed box hmem)
      ⟨hp, hI.sound, hT.keyed, hT.boxes box hmem p hp, hfit box hbox⟩
    have hd := hdel box s.host.disk s.repo.probe s.host.now
      (s.repo.settings.retentionNanos / 1000000)
    have hc := hconf box s.host.disk s.repo.probe s.host.now
      (s.repo.settings.retentionNanos / 1000000) p hp (hI.filed box hmem) hI.sound
    generalize pass box s.host.disk s.repo.probe s.host.now
      (s.repo.settings.retentionNanos / 1000000) = x at hE hd hc ⊢
    obtain ⟨o, box', d'⟩ := x
    simp only [exec_modifyHost, setContainer, exec_modifyRepo, exec_ofIo]
    -- the pass deleted files in the container's archive directories only
    refine hT.change_box hE.sound hE.keyed hmem hp (fun q hq => ?_) hE.tallies
      (Prod.ext hd.name (Prod.ext hd.root hd.sections)) rfl
    exact hc.node hI.sound p hp q fun x n he => hq (.inr (he ▸ List.prefix_append _ _))

/-- An expiration now keeps the counts exact, the gate's reading afterwards leaving its counter. -/
theorem counted_expireNow (name : String) {s : Store} (h : W.Counted s)
    (hfit : s.Fits name) :
    W.Counted ((expireNow name).exec s).2 := by
  refine ⟨keeps_expireNow name { W with store := s } h.1, ?_⟩
  have h1 := counted_expireWith W Container.expire_deletes
    (fun c d probe now retention _ hroot hf hs => c.expire_confined d probe now retention hroot hf hs)
    (fun c d probe now retention _ hf hE => c.expire_exact probe now retention hf hE) name h hfit
  unfold expireNow
  rw [exec_bind, exec_attempt]
  generalize (expireWith name Container.expire).exec s = x at h1
  obtain ⟨o, s1⟩ := x
  obtain ⟨hI1, hT1⟩ := h1
  dsimp only
  rw [exec_bind, exec_repo]
  dsimp only
  cases hbox : s1.repo.container? name with
  | none => cases o <;> exact hT1
  | some box =>
    obtain ⟨hmem, hname⟩ := Repo.mem_of_container? hbox
    simp only [exec_bind, exec_repo, exec_host, setContainer, exec_modifyRepo]
    -- the gate takes a fresh reading, which leaves its counter
    have hT2 : Store.Tallied { s1 with repo := (s1.repo.setContainer { box with
        gate := (box.gate.signalReady (s1.repo.usable s1.host.disk box) s1.host.now) }) } :=
      hT1.of_tree rfl (Repo.map_setContainer Container.tally hI1.layout.names (b := box)
        (by rw [hname]; exact hbox) (Prod.ext rfl (Gate.archived_signalReady _ _ _)))
    cases o <;> exact hT2

end Counting

end Action

/-! ## Actions that keep the counts exact -/

namespace Action

variable {r : Resource}

/-- Removing a claim's file leaves the containers, and unlinks at most the file at the claim's
path. -/
theorem removeResource_disk (r : Resource) (s : Store) :
    ((removeResource r).exec s).2.repo.containers = s.repo.containers ∧
      (((removeResource r).exec s).2.host.disk = s.host.disk ∨
        ∃ box, s.repo.container? r.container = some box ∧
          s.host.disk.removeFileAt (box.claimPath r) = .ok ((removeResource r).exec s).2.host.disk) := by
  unfold removeResource
  simp only [exec_bind, exec_container]
  cases hbox : s.repo.container? r.container with
  | none => exact ⟨rfl, .inl rfl⟩
  | some box =>
    simp only [exec_tracking]
    cases (s.repo.tracker.beginDestruction r .removed).1
    · simp
    simp only [Bool.not_true, Bool.false_eq_true, ↓reduceIte, exec_bind, exec_retireStream,
      exec_host]
    split
    · next d hd =>
      rw [disk_retired] at hd
      simpa [exec_bind, exec_map] using .inr hd
    all_goals simp [exec_bind, exec_map, disk_retired]

/-- Removing a plain claim uncounts nothing: its file lay in a section, not in an archive. -/
theorem tallied_removeResource (hr : r.Plain) : (removeResource r).Preserves Store.Tallied := by
  intro s hT
  obtain ⟨hcs, hd | ⟨box, hbox, hd⟩⟩ := removeResource_disk r s
  · exact hT.of_tree (by rw [hd]) (by rw [hcs])
  obtain ⟨hmem, -⟩ := Repo.mem_of_container? hbox
  obtain ⟨p, hp⟩ := Option.isSome_iff_exists.1 (hT.layout.rooted box hmem)
  generalize ((removeResource r).exec s).2 = s' at hcs hd ⊢
  rw [removeFileAt_claimPath hp hr] at hd
  obtain ⟨-, hs', -, hnode⟩ := Disk.removeFile_eq_ok hT.sound hd
  have hk' : s'.host.disk.Keyed := by
    rw [removeFile_eq_drop hd]
    exact hT.keyed.drop _
  refine hT.change_disk hs' hk' hmem hp (fun q hq => ?_) hcs ?_
  · rw [hnode, if_neg]
    rintro rfl
    exact hq (.inr (List.prefix_append _ _))
  · exact (hT.boxes box hmem p hp).live hT.sound hT.keyed hs' hk' hp
      (fun q hq => by rw [hnode]; exact if_neg hq) (.inl (by rw [hnode]; exact if_pos rfl))

/-! ### Creating a claim

Choosing a container only lets gates take readings, which leave their counters; the new claim's
file appears at its live place in a section, where its id names no archived file.
-/

theorem names_of_tally {cs cs' : List Container}
    (ht : cs'.map Container.tally = cs.map Container.tally) :
    cs'.map (·.name) = cs.map (·.name) := by
  simpa [List.map_map, Function.comp_def, Container.tally, Container.shape] using
    congrArg (List.map (·.1.1)) ht

theorem Gate.archived_mustWait (g : Gate) (reading : IoResult Nat) (now : Nat) :
    (g.mustWait reading now).2.archived = g.archived := by
  unfold Gate.mustWait
  split
  · rfl
  · dsimp only
    split
    · exact g.record_archived reading now
    · rfl

theorem mustWait_tally (s : Store) (hnd : (s.repo.containers.map (·.name)).Nodup) (name : String) :
    ((mustWait name).exec s).2.host = s.host ∧
      ((mustWait name).exec s).2.repo.containers.map Container.tally =
        s.repo.containers.map Container.tally := by
  unfold mustWait
  rw [exec_bind, exec_container]
  cases hc : s.repo.container? name with
  | none => exact ⟨rfl, rfl⟩
  | some c =>
    obtain ⟨-, hname⟩ := Repo.mem_of_container? hc
    simp only [exec_bind, exec_repo, exec_host, setContainer, exec_modifyRepo, exec_pure]
    refine ⟨by trivial, Repo.map_setContainer Container.tally hnd (b := c) ?_
      (Prod.ext rfl (Gate.archived_mustWait _ _ _))⟩
    rw [← hname] at hc
    exact hc

theorem firstOpen_tally (l : List String) (s : Store)
    (hnd : (s.repo.containers.map (·.name)).Nodup) :
    ((firstOpen l).exec s).2.host = s.host ∧
      ((firstOpen l).exec s).2.repo.containers.map Container.tally =
        s.repo.containers.map Container.tally := by
  induction l generalizing s with
  | nil => exact ⟨rfl, rfl⟩
  | cons name rest ih =>
    have hw := mustWait_tally s hnd name
    rw [firstOpen, exec_bind]
    rcases hm : (mustWait name).exec s with ⟨_ | w, s1⟩ <;> rw [hm] at hw
    · exact hw
    · cases w with
      | false =>
        simp only [Bool.not_false, ite_true, exec_bind, exec_container]
        cases s1.repo.container? name <;> exact hw
      | true =>
        obtain ⟨h1, h2⟩ := ih s1 (by rw [names_of_tally hw.2]; exact hnd)
        exact ⟨h1.trans hw.1, h2.trans hw.2⟩

theorem selectContainer_tally (index : Nat) (s : Store)
    (hnd : (s.repo.containers.map (·.name)).Nodup) :
    ((selectContainer index).exec s).2.host = s.host ∧
      ((selectContainer index).exec s).2.repo.containers.map Container.tally =
        s.repo.containers.map Container.tally := by
  unfold selectContainer
  rw [exec_bind, exec_repo]
  exact firstOpen_tally _ s hnd

/-- Creating the claim numbered `index` where its live place is empty and its id names no
archived file adds one file to a section, and no archived one. -/
theorem tallied_createIn {s : Store} (hT : s.Tallied) {box : Container}
    (hbox : box ∈ s.repo.containers) {index : Nat} {lossTolerant : Bool} {r : Resource}
    (hr : r = ⟨box.name, box.sectionName index, formatId s.host.now index, lossTolerant⟩)
    {p : Place} (hp : place? box.root = some p)
    (hdir : s.host.disk.node? (p ++ [r.sectionName]) = some .dir)
    (hnone : s.host.disk.node? (livePlace p r) = none) (hreg : s.repo.registered r.key = false)
    (hfree : s.host.disk.node? (archivePlace p r) = none) :
    ((createIn box index lossTolerant).exec s).2.Tallied := by
  rw [exec_createIn s hr hp hT.sound hdir hnone hreg]
  have hplain : r.Plain := by
    subst hr
    exact ⟨Path.plain_toString _, Path.plain_formatId _ _⟩
  have hsec : r.sectionName ∈ box.sectionNames := by
    subst hr
    exact Container.mem_sectionNames.2 ⟨_, Nat.mod_lt index (hT.layout.sections box hbox), rfl⟩
  have hlive : livePlace p r = p ++ [r.sectionName] ++ [r.id] := by simp [livePlace]
  have hs' := hT.sound.openWrite_append hdir hplain.2 (hlive ▸ hnone) s.host.now
  rw [← hlive] at hs'
  have hk0 : (s.host.disk.allocate ByteArray.empty s.host.now).2.Keyed :=
    hT.keyed.of_sublist (List.Sublist.refl _)
  have hk' := hk0.set (livePlace p r) (.file s.host.disk.inodes.size)
  have hnode : ∀ q, q ≠ livePlace p r → ((s.host.disk.allocate ByteArray.empty s.host.now).2.set
      (livePlace p r) (.file s.host.disk.inodes.size)).node? q = s.host.disk.node? q := fun q hq => by
    rw [node?_set, if_neg fun h => hq h.1]
    rfl
  refine hT.change_disk hs' hk' hbox hp (fun q hq => hnode q ?_) rfl ?_
  · rintro rfl
    exact hq (.inr (List.prefix_append _ _))
  · refine (hT.boxes box hbox p hp).live hT.sound hT.keyed hs' hk' hp hnode
      (.inr ⟨hsec, fun ha => ?_, ⟨s.host.disk.inodes.size, ?_⟩⟩)
    · obtain ⟨i, hi⟩ := ha
      rw [show p ++ [r.sectionName, Archive.dirName, r.id] = archivePlace p r from rfl, hfree] at hi
      cases hi
    · rw [node?_set, if_pos ⟨rfl, by simp⟩]

/-- A creation takes a pooled claim, or numbers a new one whose places hold nothing yet. -/
theorem tallied_create {W : World} (hI : Inv W) (hT : W.store.Tallied)
    (hids : W.store.repo.ids.value + 1 < 2 ^ 64) (lossTolerant : Bool) :
    ((create lossTolerant).exec W.store).2.Tallied := by
  cases hpool : W.store.repo.pool.items with
  | cons e rest =>
    rw [exec_create_of_pooled hI hpool]
    exact hT.of_tree rfl rfl
  | nil =>
    rw [exec_create_of_empty W.store hI.running.1 hpool hids]
    have hI1 := hI.number (Nat.le_succ W.store.repo.ids.value)
    have hu1 : ({ W with store := { W.store with repo := { W.store.repo with
        ids := ⟨W.store.repo.ids.value + 1⟩ } } } : World).Unnumbered (W.store.repo.ids.value + 1) :=
      hI.unnumbered (Nat.lt_add_one _)
    have hT1 : Store.Tallied { W.store with repo := { W.store.repo with
        ids := ⟨W.store.repo.ids.value + 1⟩ } } := hT.of_tree rfl rfl
    generalize ({ W.store with repo := { W.store.repo with
      ids := ⟨W.store.repo.ids.value + 1⟩ } } : Store) = s1 at hI1 hu1 hT1 ⊢
    generalize W.store.repo.ids.value + 1 = index at hu1 ⊢
    obtain ⟨hreg, hmem⟩ := selectContainer_regated index s1 hT1.layout.names
    obtain ⟨hhost, htally⟩ := selectContainer_tally index s1 hT1.layout.names
    rcases hsel : (selectContainer index).exec s1 with ⟨_ | (_ | box), s2⟩ <;>
      rw [hsel] at hreg hmem hhost htally <;> dsimp only at hreg hmem hhost htally ⊢ <;>
      have hT2 : s2.Tallied := hT1.of_tree (by rw [hhost]) htally
    · exact hT2
    · exact hT2
    · have hI2 : Inv { W with store := s2 } := hI1.regate hreg
      have hbox : box ∈ s2.repo.containers := hmem box rfl
      obtain ⟨p, hp⟩ := Option.isSome_iff_exists.1 (hI2.layout.rooted box hbox)
      obtain ⟨hnone, hfree, hnew⟩ := hu1.regate hreg box hbox p hp (box.sectionName index)
        s2.host.now (Nat.le_refl _)
      have hregr : s2.repo.registered (box.name, box.sectionName index, formatId s2.host.now index)
          = false := by
        refine Bool.eq_false_iff.2 fun h => ?_
        obtain ⟨n, hn⟩ := (Repo.registered_iff _ _).1 h
        obtain ⟨-, i, hi, -⟩ := hI2.stream_file _ n hn
        exact hnew (List.mem_map.2 ⟨_, hi, rfl⟩)
      exact tallied_createIn hT2 hbox rfl hp
        (hI2.sections box hbox p hp _ (Nat.mod_lt index (hI2.layout.sections box hbox)))
        hnone hregr hfree

end Action

namespace Action

/-- A fold whose steps keep `P` on the elements of its list keeps `P`. -/
protected theorem Preserves.foldlM_mem {β γ : Type} {P : Store → Prop} {f : β → γ → Action β}
    {l : List γ} (hf : ∀ b, ∀ x ∈ l, (f b x).Preserves P) (init : β) :
    (l.foldlM f init).Preserves P := by
  induction l generalizing init with
  | nil => exact Preserves.pure init
  | cons x l ih =>
    rw [List.foldlM_cons]
    exact (hf init x List.mem_cons_self).bind fun b =>
      ih (fun b y hy => hf b y (List.mem_cons_of_mem _ hy)) b

section Counting

variable (W : World) {α : Type} {r : Resource}

/-- An action that keeps the invariant, the disk's entries and the containers' tallies. -/
theorem Preserves.counted_of_tree {a : Action α} (hk : a.Keeps)
    (hn : ∀ s, (a.exec s).2.host.disk.nodes = s.host.disk.nodes)
    (ht : ∀ s, (a.exec s).2.repo.containers.map Container.tally =
      s.repo.containers.map Container.tally) : a.Preserves W.Counted :=
  fun s h => ⟨hk _ h.1, h.2.of_tree (hn s) (ht s)⟩

theorem counted_repo : repo.Preserves W.Counted := Preserves.of_snd fun _ => rfl

theorem counted_container (name : String) : (container name).Preserves W.Counted :=
  Preserves.of_snd fun s => by
    rw [exec_container]
    split <;> rfl

/-- Removing a claim's file uncounts nothing: it lay in a section, not in an archive. -/
theorem counted_removeResource (hr : r.Plain) : (removeResource r).Preserves W.Counted :=
  fun s h => ⟨keeps_removeResource hr _ h.1, tallied_removeResource hr s h.2⟩

/-- Archiving a claim's file counts it once it has moved into the archive directory. -/
theorem counted_archive (hr : r.Plain) : (archive r).Preserves W.Counted := by
  rintro s ⟨hI, hT⟩
  refine ⟨keeps_archive hr _ hI, ?_⟩
  cases ha : s.repo.settings.archiveEnabled with
  | false =>
    rw [exec_archive_of_off _ ha]
    exact hT
  | true =>
  cases hbox : s.repo.container? r.container with
  | none =>
    rw [exec_archive_of_none _ ha hbox]
    exact hT
  | some box =>
    obtain ⟨hmem, hname⟩ := Repo.mem_of_container? hbox
    obtain ⟨p, hp⟩ := Option.isSome_iff_exists.1 (hI.layout.rooted box hmem)
    cases hb : (s.repo.tracker.beginDestruction r .archived).1 with
    | false =>
      rw [exec_archive_of_not_begin _ ha hbox hb]
      exact hT.of_tree rfl rfl
    | true =>
      rw [exec_archive_of_begin s ha hbox hb (hI.streamOf?_of_begin hb)]
      dsimp only
      split
      · next moved d hd =>
        have hs' : d.Sound := ((hI.finish_of_begin hb).archiveFile hmem hp hr hname hd).sound
        rcases archiveFile_moved hp hr hd with ⟨rfl, rfl⟩ | ⟨rfl, -⟩
        · exact hT.of_tree rfl rfl
        · obtain ⟨-, -, hk', hnode⟩ := archiveFile_true (hT.boxes box hmem p hp).tidy hI.sound
            hT.keyed hp hr hd
          refine hT.change_box hs' hk' hmem hp (fun q hq => ?_)
            ((hT.boxes box hmem p hp).archive hI.sound hT.keyed hs' hp hr hd) rfl rfl
          rw [hnode, reclaimedNode_of_ne] <;> rintro rfl
          · exact hq (.inr (List.prefix_append _ _))
          · exact hq (.inr (List.prefix_append _ _))
          · exact hq (.inr (List.prefix_append _ _))
      · exact hT.of_tree rfl rfl

theorem counted_destroy (report : Destruction) {c : Resource} (hc : c.Plain) :
    (destroy report c).Preserves W.Counted := by
  unfold destroy
  refine (counted_repo W).bind fun rp => (Preserves.attempt ?_).bind fun o => ?_
  · split
    · exact counted_archive W hc
    · exact counted_removeResource W hc
  · split <;> exact Preserves.pure _

theorem counted_archiveOrDestroy (report : Destruction) (name : String) :
    (archiveOrDestroy report name).Preserves W.Counted := by
  rintro s ⟨hI, hT⟩
  unfold archiveOrDestroy
  rw [exec_bind, exec_container]
  cases hbox : s.repo.container? name with
  | none => exact ⟨hI, hT⟩
  | some box =>
    obtain ⟨hmem, hname⟩ := Repo.mem_of_container? hbox
    dsimp only
    -- the bin is drained before its claims are destroyed: the tally stays
    have hI' := hI.setContainer hmem
      { box with reclaimable := (box.reclaimable.drain box.reclaimable.size).2 } rfl rfl rfl
      (fun x hx => hI.binned box hmem x (List.mem_of_mem_drop hx)) (hI.filed box hmem)
    have hT' : Store.Tallied { s with repo := (s.repo.setContainer
        { box with reclaimable := (box.reclaimable.drain box.reclaimable.size).2 }) } :=
      hT.of_tree rfl (Repo.map_setContainer Container.tally hI.layout.names (b := box)
        (by rw [← hname] at hbox; exact hbox) rfl)
    rw [setContainer, exec_bind, exec_modifyRepo]
    exact Preserves.foldlM_mem (fun b x hx => counted_destroy W b (hI.binned box hmem x
      (List.mem_of_mem_take hx))) report _ ⟨hI', hT'⟩

theorem counted_runDestruction : runDestruction.Preserves W.Counted := by
  rintro s ⟨hI, hT⟩
  unfold runDestruction
  rw [exec_bind, exec_repo]
  simp only [Tracker.drainDestructable, Fifo.drain]
  rw [exec_bind, exec_modifyRepo]
  have hI' := hI.tracker { s.repo.tracker with queue :=
      (s.repo.tracker.queue.drain s.repo.tracker.pending).2 } (fun _ => rfl)
    fun c hc => hI.queued c (List.mem_of_mem_drop hc)
  exact (Preserves.bind (Preserves.foldlM_mem (fun b x hx => counted_destroy W b
      (hI.queued x (List.mem_of_mem_take hx))) {}) fun report =>
    (counted_repo W).bind fun rp => Preserves.foldlM (fun b name => counted_archiveOrDestroy W b name)
      report) _ ⟨hI', hT.of_tree rfl rfl⟩

theorem counted_cleanup : cleanup.Preserves W.Counted := by
  unfold cleanup
  refine (counted_repo W).bind fun rp => (counted_repo W).bind fun rp' =>
    (Preserves.forIn (fun name _ report => ?_) _).bind fun _ => Preserves.pure _
  refine (counted_container W name).bind fun box => ?_
  intro s h
  rw [exec_bind, exec_host]
  refine Preserves.bind (Preserves.forIn (fun c hc report => ?_) _) (fun _ => Preserves.pure _) s h
  have hp := plain_of_liveClaims h.1.sound hc
  refine (counted_repo W).bind fun rt => ?_
  split
  · exact Preserves.pure _
  · refine (Preserves.attempt ?_).bind fun o => ?_
    · split
      · exact counted_archive W hp
      · exact counted_removeResource W hp
    · split <;> exact Preserves.pure _

end Counting

end Action

end ClaimStore
