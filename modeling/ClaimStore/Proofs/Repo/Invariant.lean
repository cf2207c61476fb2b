import ClaimStore.Proofs.Repo.World
import Mathlib.Data.List.Nodup
/-!
# The invariant of a caller's world

A repository keeps its promises about a claim's bytes only as long as several records agree:
the containers' places on the disk, the files the repository made, the streams open on them,
the tracker's states, the pool, and the claims the caller holds. `Inv` lists what holds of
every world a run reaches from a fresh repository.

The heart of it is `holders`: each resource claim with an open stream is held by exactly one
party, either a claim the caller has not finished writing or an entry of the pool, so exactly
one writer appends to each file. `Handed.Stored` then says where a handed-out claim's bytes lie
in its file and what its length cell holds.
-/

set_option autoImplicit false

namespace ClaimStore

open ClaimStore.Claim ClaimStore.FileSystem

/-- Containers with distinct names, each rooted at a place and with at least one section, no
root lying inside another. -/
structure Layout (cs : List Container) : Prop where
  names : (cs.map (·.name)).Nodup
  rooted : ∀ c ∈ cs, (place? c.root).isSome
  sections : ∀ c ∈ cs, 0 < c.sections
  apart : ∀ c ∈ cs, ∀ c' ∈ cs, c.name ≠ c'.name → ∀ p p', place? c.root = some p →
    place? c'.root = some p' → ¬ p <+: p'

namespace Layout

variable {cs : List Container} {c c' : Container} {p p' : Place}

theorem prefix_same (hL : Layout cs) (hc : c ∈ cs) (hc' : c' ∈ cs) (hp : place? c.root = some p)
    (hp' : place? c'.root = some p') {u v : Place} (h : p ++ u <+: p' ++ v) :
    c = c' ∧ p = p' ∧ u <+: v := by
  have hpp : p <+: p' ++ v := (List.prefix_append p u).trans h
  have hp'p : p' <+: p' ++ v := List.prefix_append p' v
  have hsame : c.name = c'.name := by
    refine Classical.byContradiction fun hne => ?_
    rcases List.prefix_or_prefix_of_prefix hpp hp'p with h1 | h1
    · exact hL.apart c hc c' hc' hne p p' hp hp' h1
    · exact hL.apart c' hc' c hc (Ne.symm hne) p' p hp' hp h1
  obtain rfl : c = c' := List.inj_on_of_nodup_map hL.names hc hc' hsame
  rw [hp] at hp'
  cases hp'
  exact ⟨rfl, rfl, (List.prefix_append_right_inj p).1 h⟩

theorem eq_same (hL : Layout cs) (hc : c ∈ cs) (hc' : c' ∈ cs) (hp : place? c.root = some p)
    (hp' : place? c'.root = some p') {u v : Place} (h : p ++ u = p' ++ v) :
    c = c' ∧ p = p' ∧ u = v := by
  obtain ⟨rfl, rfl, -⟩ := hL.prefix_same hc hc' hp hp' (u := u) (v := v) ⟨[], by rw [List.append_nil, h]⟩
  exact ⟨rfl, rfl, List.append_cancel_left h⟩

theorem find?_name (hL : Layout cs) (hc : c ∈ cs) : cs.find? (·.name == c.name) = some c := by
  obtain ⟨c', hf⟩ := Option.isSome_iff_exists.1
    (List.find?_isSome.2 ⟨c, hc, by simp⟩ : (cs.find? (·.name == c.name)).isSome)
  have hmem := List.mem_of_find?_eq_some hf
  have hname : c'.name = c.name := by simpa using List.find?_some hf
  rw [hf, List.inj_on_of_nodup_map hL.names hmem hc hname]

end Layout

/-- Whether a phase's claim is active: not written yet, or with its writer open. -/
def Phase.active : Phase → Bool
  | .done => false
  | _ => true

/-- The key of a handed-out claim's resource claim. -/
def Handed.key (c : Handed) : ClaimKey := c.claim.resource.key

/-- Whether a key has a stream in the repository's table. -/
def Repo.registered (r : Repo) (k : ClaimKey) : Bool := r.streams.any (·.1 == k)

/-- A key the repository numbered: in one of its containers, with a section and an id that are
plain names other than the archive directory's. -/
structure Numbered (cs : List Container) (k : ClaimKey) : Prop where
  box : ∃ c ∈ cs, c.name = k.1
  sec : Path.Plain k.2.1 ∧ k.2.1 ≠ Archive.dirName
  id : Path.Plain k.2.2 ∧ k.2.2 ≠ Archive.dirName

theorem Numbered.plain {cs : List Container} {r : Resource} (h : Numbered cs r.key) : r.Plain :=
  ⟨h.sec.1, h.id.1⟩

/-- A place holds nothing, or the file `i`. -/
def HoldsAt (d : Disk) (q : Place) (i : Nat) : Prop :=
  d.node? q = none ∨ d.node? q = some (.file i)

/-- The live and the archive place of a key hold nothing or the file `i`. -/
def Placed (s : Store) (k : ClaimKey) (i : Nat) : Prop :=
  ∀ c ∈ s.repo.containers, c.name = k.1 → ∀ p, place? c.root = some p →
    HoldsAt s.host.disk (p ++ [k.2.1, k.2.2]) i ∧
      HoldsAt s.host.disk (p ++ [k.2.1, Archive.dirName, k.2.2]) i

theorem Placed.congr {s s' : Store} {k : ClaimKey} {i : Nat} (h : Placed s k i)
    (hc : s'.repo.containers = s.repo.containers)
    (hd : ∀ q, s'.host.disk.node? q = s.host.disk.node? q) : Placed s' k i := by
  intro c hcm hname p hp
  rw [hc] at hcm
  simpa only [HoldsAt, hd] using h c hcm hname p hp

/-- A container's queue of archived files names places in its archive directories only. -/
def Container.Filed (c : Container) : Prop :=
  ∀ e ∈ c.archived.items, ∃ p sec n, place? c.root = some p ∧
    place? e.path = some (p ++ [sec, Archive.dirName, n])

/-- A handed-out claim in the file `i` of its resource claim: its bytes lie at its offset, its
length cell holds their count once its writer was taken, and while it is active (or too long
for its length cell to tell) it ends where the file ends. -/
structure Handed.Stored (c : Handed) (s : Store) (i : Nat) : Prop where
  fits : c.claim.offset + c.sent.size ≤ (s.host.disk.bytes i).size
  bytes : (s.host.disk.bytes i).extract c.claim.offset (c.claim.offset + c.sent.size) = c.sent
  cell : s.host.cell c.claim.cell = if c.phase = .fresh then -1 else signed64 c.sent.size
  fresh : c.phase = .fresh → c.sent.size = 0
  last : c.phase.active ∨ 2 ^ 63 ≤ c.sent.size →
    c.claim.offset + c.sent.size = (s.host.disk.bytes i).size
  long : 2 ^ 63 ≤ c.sent.size → c.phase.active ∨ s.repo.registered c.key = false

/-- What holds of every world a run reaches. -/
structure Inv (W : World) : Prop where
  layout : Layout W.store.repo.containers
  running : W.store.repo.shutDown = false ∧ W.store.repo.background = none
  appendable : W.store.repo.settings.maxAppendable < 2 ^ 63
  sound : W.store.host.disk.Sound
  sections : ∀ c ∈ W.store.repo.containers, ∀ p, place? c.root = some p → ∀ j, j < c.sections →
    W.store.host.disk.node? (p ++ [toString j]) = some .dir
  -- the files of the resource claims the repository opened
  files_nodup : (W.files.map (·.1)).Nodup
  files_inj : ∀ k k' i, (k, i) ∈ W.files → (k', i) ∈ W.files → k = k'
  numbered : ∀ k i, (k, i) ∈ W.files → Numbered W.store.repo.containers k ∧
    i < W.store.host.disk.inodes.size
  placed : ∀ k i, (k, i) ∈ W.files → Placed W.store k i
  unused : ∀ c ∈ W.store.repo.containers, ∀ p, place? c.root = some p → ∀ sec t j,
    W.store.host.now ≤ t → W.store.repo.ids.value < j →
      W.store.host.disk.node? (p ++ [sec, formatId t j]) = none ∧
      W.store.host.disk.node? (p ++ [sec, Archive.dirName, formatId t j]) = none ∧
      (c.name, sec, formatId t j) ∉ W.files.map (·.1)
  -- the streams open for writing
  streams_nodup : (W.store.repo.streams.map (·.1)).Nodup
  writable : ∀ k, W.store.repo.registered k = (W.store.repo.tracker.record k).state.isWritable
  stream_file : ∀ k n, (k, n) ∈ W.store.repo.streams → (W.store.host.stream n).closed = false ∧
    ∃ i, (k, i) ∈ W.files ∧ (W.store.host.stream n).inode = i ∧
      (W.store.host.stream n).written = (W.store.host.disk.bytes i).size
  -- the pool, and who holds each resource claim with a stream
  pool : ∀ c len, (c, len) ∈ W.store.repo.pool.items → ∃ n, (c.key, n) ∈ W.store.repo.streams ∧
    (W.store.host.stream n).written = len ∧ len < W.store.repo.settings.maxAppendable
  holders : ∀ k, W.handed.countP (fun c => c.phase.active && c.key == k) +
      W.store.repo.pool.items.countP (·.1.key == k) = if W.store.repo.registered k then 1 else 0
  -- the claims handed out
  stored : ∀ c ∈ W.handed, ∃ i, (c.key, i) ∈ W.files ∧ c.Stored W.store i
  cells : (W.handed.map (·.claim.cell)).Nodup ∧ ∀ c ∈ W.handed, c.claim.cell < W.store.host.cells.size
  writer : ∀ c ∈ W.handed, ∀ w, c.phase = .writing w → w.claim = c.claim ∧
    (c.key, w.stream) ∈ W.store.repo.streams ∧ w.written = c.sent.size ∧ w.finished = false
  -- claims waiting for destruction
  queued : ∀ c ∈ W.store.repo.tracker.queue.items, c.Plain
  binned : ∀ b ∈ W.store.repo.containers, ∀ c ∈ b.reclaimable.items, c.Plain
  -- files waiting for expiration
  filed : ∀ b ∈ W.store.repo.containers, b.Filed

/-! ## Lookups by key -/

theorem find?_key_eq_some {α β : Type} [BEq α] [LawfulBEq α] {l : List (α × β)}
    (h : (l.map (·.1)).Nodup) {k : α} {b : β} :
    (l.find? (·.1 == k)).map (·.2) = some b ↔ (k, b) ∈ l := by
  induction l with
  | nil => simp
  | cons e l ih =>
    obtain ⟨k', b'⟩ := e
    obtain ⟨hnot, hl⟩ := List.nodup_cons.1 h
    by_cases he : k' = k
    · subst he
      have hk : (k', b) ∉ l := fun hm => hnot (List.mem_map.2 ⟨_, hm, rfl⟩)
      simp [hk, eq_comm]
    · have hne : (k, b) ≠ (k', b') := fun heq => he (congrArg Prod.fst heq).symm
      simp [he, ih hl, hne]

theorem Repo.registered_iff (r : Repo) (k : ClaimKey) :
    r.registered k = true ↔ ∃ n, (k, n) ∈ r.streams := by
  simp [Repo.registered, List.any_eq_true]

theorem Repo.streamOf?_eq_none (r : Repo) (c : Resource) :
    r.streamOf? c = none ↔ r.registered c.key = false := by
  simp [Repo.streamOf?, Repo.registered, List.find?_eq_none, List.any_eq_false]

theorem countP_pool_pos {l : List (Resource × Nat)} {c : Resource} {len : Nat} (h : (c, len) ∈ l) :
    0 < l.countP (·.1.key == c.key) :=
  List.countP_pos_iff.2 ⟨(c, len), h, by simp⟩

theorem two_le_countP {α : Type} {p : α → Bool} :
    ∀ {l : List α} {i j : Nat} (hij : i < j) (hj : j < l.length), p l[i] = true →
      p l[j] = true → 2 ≤ l.countP p
  | [], _, _, _, hj, _, _ => absurd hj (Nat.not_lt_zero _)
  | a :: l, 0, j + 1, _, hj, hi, hj' => by
    have hjl : j < l.length := by simpa using hj
    have hpos : 0 < l.countP p := List.countP_pos_iff.2 ⟨l[j], List.getElem_mem hjl, by simpa using hj'⟩
    rw [List.countP_cons]
    simp only [List.getElem_cons_zero] at hi
    simp only [hi, ite_true]
    omega
  | a :: l, i + 1, j + 1, hij, hj, hi, hj' => by
    have := two_le_countP (l := l) (by omega) (by simpa using hj) hi hj'
    simp only [List.countP_cons]
    omega

theorem mem_set_iff_of_lt {α : Type} {l : List α} {k : Nat} (hk : k < l.length) {x c : α} :
    c ∈ l.set k x ↔ c = x ∨ ∃ j, ∃ hj : j < l.length, j ≠ k ∧ l[j] = c := by
  rw [List.mem_iff_getElem]
  constructor
  · rintro ⟨j, hj, hc⟩
    rw [List.getElem_set] at hc
    by_cases hjk : k = j
    · exact .inl (by simpa [hjk] using hc.symm)
    · exact .inr ⟨j, by simpa using hj, Ne.symm hjk, by simpa [hjk] using hc⟩
  · rintro (rfl | ⟨j, hj, hjk, rfl⟩)
    · exact ⟨k, by simpa using hk, by simp⟩
    · exact ⟨j, by simpa using hj, by simp [Ne.symm hjk]⟩

theorem countP_set_of_eq {α : Type} {p : α → Bool} {l : List α} {k : Nat} (hk : k < l.length)
    {x : α} (h : p x = p l[k]) : (l.set k x).countP p = l.countP p := by
  rw [List.countP_set hk, h]
  by_cases hp : p l[k] = true
  · have : 0 < l.countP p := List.countP_pos_iff.2 ⟨l[k], List.getElem_mem hk, hp⟩
    simp only [hp, if_true]
    omega
  · simp [hp]

theorem World.note_eq_self {files : List (ClaimKey × Nat)} {s : Store}
    (h : ∀ k n, (k, n) ∈ s.repo.streams → k ∈ files.map (·.1)) : World.note files s = files := by
  have hnil : (s.repo.streams.filter fun e => !files.any (·.1 == e.1)) = [] := by
    rw [List.filter_eq_nil_iff]
    rintro ⟨k, n⟩ hkn
    obtain ⟨⟨k', i⟩, hmem, hk'⟩ := List.mem_map.1 (h k n hkn)
    simp only at hk'
    subst hk'
    simp only [Bool.not_eq_true', List.any_eq_false, not_forall]
    exact ⟨_, hmem, by simp⟩
  simp [World.note, hnil]

namespace Inv

variable {W : World}

theorem streamOf?_eq_some (hI : Inv W) {c : Resource} {n : Nat} :
    W.store.repo.streamOf? c = some n ↔ (c.key, n) ∈ W.store.repo.streams :=
  find?_key_eq_some hI.streams_nodup

theorem active_registered (hI : Inv W) {c : Handed} (hc : c ∈ W.handed) (ha : c.phase.active) :
    W.store.repo.registered c.key = true := by
  have h := hI.holders c.key
  have hpos : 0 < W.handed.countP (fun c' => c'.phase.active && c'.key == c.key) :=
    List.countP_pos_iff.2 ⟨c, hc, by simp [ha]⟩
  refine Classical.byContradiction fun hr => ?_
  rw [if_neg hr] at h
  omega

theorem pooled_registered (hI : Inv W) {c : Resource} {len : Nat}
    (hc : (c, len) ∈ W.store.repo.pool.items) : W.store.repo.registered c.key = true := by
  obtain ⟨n, hn, -⟩ := hI.pool c len hc
  exact (Repo.registered_iff _ _).2 ⟨n, hn⟩

theorem active_unique (hI : Inv W) {i j : Nat} (hi : i < W.handed.length) (hj : j < W.handed.length)
    (hai : W.handed[i].phase.active) (haj : W.handed[j].phase.active)
    (hk : W.handed[i].key = W.handed[j].key) : i = j := by
  have h := hI.holders W.handed[j].key
  have hle : W.handed.countP (fun c => c.phase.active && c.key == W.handed[j].key) ≤ 1 := by
    split at h <;> omega
  rcases Nat.lt_trichotomy i j with hlt | heq | hlt
  · have := two_le_countP (p := fun c => c.phase.active && c.key == W.handed[j].key) hlt hj
      (by simp [hai, hk]) (by simp [haj])
    omega
  · exact heq
  · have := two_le_countP (p := fun c => c.phase.active && c.key == W.handed[j].key) hlt hi
      (by simp [haj]) (by simp [hai, hk])
    omega

theorem not_active_of_pooled (hI : Inv W) {c : Resource} {len : Nat}
    (hc : (c, len) ∈ W.store.repo.pool.items) {h : Handed} (hh : h ∈ W.handed) (hk : h.key = c.key) :
    h.phase.active = false := by
  have hsum := hI.holders c.key
  rw [if_pos (hI.pooled_registered hc)] at hsum
  have hpool := countP_pool_pos hc
  refine Bool.eq_false_iff.2 fun ha => ?_
  have : 0 < W.handed.countP (fun c' => c'.phase.active && c'.key == c.key) :=
    List.countP_pos_iff.2 ⟨h, hh, by simp [ha, hk]⟩
  omega

theorem file_unique (hI : Inv W) {k : ClaimKey} {i i' : Nat} (hi : (k, i) ∈ W.files)
    (hi' : (k, i') ∈ W.files) : i = i' := by
  have h := List.inj_on_of_nodup_map hI.files_nodup hi hi' rfl
  simpa using congrArg Prod.snd h

theorem stream_unique (hI : Inv W) {k : ClaimKey} {n n' : Nat} (hn : (k, n) ∈ W.store.repo.streams)
    (hn' : (k, n') ∈ W.store.repo.streams) : n = n' := by
  have h := List.inj_on_of_nodup_map hI.streams_nodup hn hn' rfl
  simpa using congrArg Prod.snd h

theorem stream_inj (hI : Inv W) {k k' : ClaimKey} {n : Nat} (hk : (k, n) ∈ W.store.repo.streams)
    (hk' : (k', n) ∈ W.store.repo.streams) : k = k' := by
  obtain ⟨-, i, hi, hin, -⟩ := hI.stream_file k n hk
  obtain ⟨-, i', hi', hin', -⟩ := hI.stream_file k' n hk'
  exact hI.files_inj k k' i (hi) (hin ▸ hin' ▸ hi')

theorem note_eq (hI : Inv W) {s : Store}
    (h : ∀ k n, (k, n) ∈ s.repo.streams → ∃ n', (k, n') ∈ W.store.repo.streams) :
    World.note W.files s = W.files := by
  refine World.note_eq_self fun k n hkn => ?_
  obtain ⟨n', hn'⟩ := h k n hkn
  obtain ⟨-, i, hi, -⟩ := hI.stream_file k n' hn'
  exact List.mem_map.2 ⟨(k, i), hi, rfl⟩

theorem stored_unique (hI : Inv W) {c : Handed} {i : Nat} (hc : c ∈ W.handed) (hi : (c.key, i) ∈ W.files) :
    c.Stored W.store i := by
  obtain ⟨i', hi', hs⟩ := hI.stored c hc
  rwa [hI.file_unique hi hi']

theorem active_stream (hI : Inv W) {c : Handed} (hc : c ∈ W.handed) (ha : c.phase.active) :
    ∃ n, (c.key, n) ∈ W.store.repo.streams ∧
      (W.store.host.stream n).written = c.claim.offset + c.sent.size := by
  obtain ⟨n, hn⟩ := (Repo.registered_iff _ _).1 (hI.active_registered hc ha)
  obtain ⟨-, i, hi, -, hw⟩ := hI.stream_file _ n hn
  exact ⟨n, hn, hw.trans ((hI.stored_unique hc hi).last (.inl ha)).symm⟩

end Inv

end ClaimStore
