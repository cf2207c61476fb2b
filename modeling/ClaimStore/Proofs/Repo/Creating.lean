import ClaimStore.Proofs.Repo.Expiring
/-!
# Creating claims keeps the invariant

`create` hands out a content claim in one of two ways. When the pool holds a resource claim, the
invariant makes it one that may be appended to: registered, writable, and at the length of its
file. It is taken off the pool and a claim at that length is handed out. Otherwise the next
number is drawn; no file was ever made for it, so its places in the chosen container hold
nothing, and the repository makes its file there, opens a stream on it and hands out a claim
at offset zero.

Choosing the container asks the containers' gates in turn and only changes gates
(`Store.Regated`), which the invariant does not read.
-/

set_option autoImplicit false

namespace ClaimStore

open ClaimStore.Claim ClaimStore.FileSystem

/-! ## Streams and cells pushed onto a host -/

namespace Host

variable (h : Host)

theorem stream_of_push {g : Host} {s : Stream} (hs : g.streams = h.streams.push s) (m : Nat) :
    g.stream m = if m = h.streams.size then s else h.stream m := by
  by_cases hm : m = h.streams.size <;>
    simp [stream, hs, Array.getD_eq_getD_getElem?, Array.getElem?_push, hm]

theorem cell_of_push {g : Host} {v : Int} (hc : g.cells = h.cells.push v) (m : Nat) :
    g.cell m = if m = h.cells.size then v else h.cell m := by
  by_cases hm : m = h.cells.size <;>
    simp [cell, hc, Array.getD_eq_getD_getElem?, Array.getElem?_push, hm]

theorem openStream_of_none {path : String} {p : Place} (hpath : Disk.placeOf path = .ok p)
    (hr : h.disk.reach p = .ok ()) (hnone : h.disk.node? p = none) :
    h.openStream path = .ok (h.streams.size,
      { h with disk := (h.disk.allocate ByteArray.empty h.now).2.set p (.file h.disk.inodes.size),
               streams := h.streams.push ⟨path, h.disk.inodes.size, 0, false⟩ }) := by
  have hb : ((h.disk.allocate ByteArray.empty h.now).2.set p
      (.file h.disk.inodes.size)).bytes h.disk.inodes.size = ByteArray.empty := by
    rw [Disk.bytes_set, Disk.bytes_allocate, if_pos rfl]
  simp [openStream, hpath, Disk.openWrite_of_none hr hnone, hb, bind, Except.bind, pure,
    Except.pure]

end Host

/-! ## Choosing a container changes gates only -/

/-- A store whose containers had their gates replaced, and nothing else. -/
structure Store.Regated (s s' : Store) : Prop where
  host : s'.host = s.host
  repo : ∃ g : Container → Gate,
    s'.repo = { s.repo with containers := s.repo.containers.map fun c => { c with gate := g c } }

namespace Store.Regated

variable {s s' s'' : Store}

theorem refl (s : Store) : Regated s s := ⟨rfl, fun c => c.gate, by simp⟩

theorem trans (h : Regated s s') (h' : Regated s' s'') : Regated s s'' := by
  obtain ⟨hh, g, hg⟩ := h
  obtain ⟨hh', g', hg'⟩ := h'
  refine ⟨hh'.trans hh, fun c => g' { c with gate := g c }, ?_⟩
  rw [hg', hg]
  simp [List.map_map, Function.comp_def]

theorem names (h : Regated s s') :
    s'.repo.containers.map (·.name) = s.repo.containers.map (·.name) := by
  obtain ⟨-, g, hg⟩ := h
  simp [hg, List.map_map, Function.comp_def]

theorem mem (h : Regated s s') {b : Container} (hb : b ∈ s'.repo.containers) :
    ∃ c ∈ s.repo.containers, b.name = c.name ∧ b.root = c.root ∧ b.sections = c.sections := by
  obtain ⟨-, g, hg⟩ := h
  rw [hg] at hb
  obtain ⟨c, hc, rfl⟩ := List.mem_map.1 hb
  exact ⟨c, hc, rfl, rfl, rfl⟩

theorem setGate (s : Store) (hnd : (s.repo.containers.map (·.name)).Nodup) {c : Container}
    (hc : c ∈ s.repo.containers) (G : Gate) :
    Regated s { s with repo := s.repo.setContainer { c with gate := G } } := by
  refine ⟨rfl, fun c' => if c'.name = c.name then G else c'.gate, ?_⟩
  simp only [Repo.setContainer]
  congr 1
  refine List.map_congr_left fun c' hc' => ?_
  by_cases hn : c'.name = c.name
  · obtain rfl := List.inj_on_of_nodup_map hnd hc' hc hn
    simp
  · simp [hn]

end Store.Regated

namespace Action

theorem mustWait_regated (s : Store) (hnd : (s.repo.containers.map (·.name)).Nodup)
    (name : String) : Store.Regated s ((mustWait name).exec s).2 := by
  unfold mustWait
  rw [exec_bind, exec_container]
  cases hc : s.repo.container? name with
  | none => exact .refl s
  | some c =>
    simp only [exec_bind, exec_repo, exec_host, setContainer, exec_modifyRepo, exec_pure]
    exact Store.Regated.setGate s hnd (Repo.mem_of_container? hc).1 _

/-- Asking the gates in turn changes gates only, and the container it answers is one of the
repository's afterwards. -/
theorem firstOpen_regated (l : List String) (s : Store)
    (hnd : (s.repo.containers.map (·.name)).Nodup) :
    Store.Regated s ((firstOpen l).exec s).2 ∧
      ∀ b, ((firstOpen l).exec s).1 = .ok (some b) → b ∈ ((firstOpen l).exec s).2.repo.containers := by
  induction l generalizing s with
  | nil => exact ⟨.refl s, fun b h => by cases h⟩
  | cons name rest ih =>
    have hw := mustWait_regated s hnd name
    rw [firstOpen, exec_bind]
    rcases hm : (mustWait name).exec s with ⟨_ | w, s1⟩
    · rw [hm] at hw
      exact ⟨hw, fun b h => by cases h⟩
    · rw [hm] at hw
      cases w with
      | false =>
        simp only [Bool.not_false, ite_true, exec_bind, exec_container]
        cases hc : s1.repo.container? name with
        | none => exact ⟨hw, fun b h => by cases h⟩
        | some b =>
          refine ⟨hw, fun b' h => ?_⟩
          cases h
          exact (Repo.mem_of_container? hc).1
      | true =>
        obtain ⟨h1, h2⟩ := ih s1 (hw.names ▸ hnd)
        exact ⟨hw.trans h1, h2⟩

theorem selectContainer_regated (index : Nat) (s : Store)
    (hnd : (s.repo.containers.map (·.name)).Nodup) :
    Store.Regated s ((selectContainer index).exec s).2 ∧
      ∀ b, ((selectContainer index).exec s).1 = .ok (some b) →
        b ∈ ((selectContainer index).exec s).2.repo.containers := by
  unfold selectContainer
  rw [exec_bind, exec_repo]
  exact firstOpen_regated _ s hnd

theorem exec_newClaim (s : Store) (c : Resource) (offset : Nat) : (newClaim c offset).exec s =
    (.ok ⟨c, offset, s.host.cells.size⟩,
      { s with host := { s.host with cells := s.host.cells.push (-1) } }) := rfl

variable {W : World}

/-- Under the invariant the pool's first entry may be appended to, its stream open and its
state writable, so it is taken at once. -/
theorem exec_takePooled_of_cons (hI : Inv W) {c : Resource} {len : Nat}
    {rest : List (Resource × Nat)} (hpool : W.store.repo.pool.items = (c, len) :: rest)
    (fuel : Nat) :
    (takePooled (fuel + 1)).exec W.store = (.ok (some (c, len)),
      { W.store with
        repo := { W.store.repo with
          pool := W.store.repo.pool.poll.2
          tracker := (W.store.repo.tracker.increment c false).2 } }) := by
  obtain ⟨n, hn, -⟩ := hI.pool c len (hpool ▸ List.mem_cons_self)
  have hs : W.store.repo.streamOf? c = some n := hI.streamOf?_eq_some.2 hn
  have hw : (W.store.repo.tracker.state c).isWritable = true := by
    rw [Tracker.state, ← hI.writable]
    exact (Repo.registered_iff _ _).2 ⟨n, hn⟩
  have hhead : W.store.repo.pool.poll.1 = some (c, len) := by simp [Fifo.poll, hpool]
  unfold takePooled
  rw [exec_bind, exec_repo]
  dsimp only
  generalize W.store.repo.pool.poll = P at hhead ⊢
  obtain ⟨o, q⟩ := P
  cases hhead
  simp [exec_bind, exec_map, hs, hw]

theorem exec_create_of_pooled (hI : Inv W) {c : Resource} {len : Nat}
    {rest : List (Resource × Nat)} (hpool : W.store.repo.pool.items = (c, len) :: rest)
    (lossTolerant : Bool) :
    (create lossTolerant).exec W.store = (.ok (.claim ⟨c, len, W.store.host.cells.size⟩),
      { repo := { W.store.repo with
          pool := W.store.repo.pool.poll.2
          tracker := (W.store.repo.tracker.increment c false).2 }
        host := { W.store.host with cells := W.store.host.cells.push (-1) } }) := by
  have hsize : W.store.repo.pool.size = rest.length + 1 := by simp [Fifo.size, hpool]
  simp [create, exec_bind, exec_map, hI.running.1, hsize, exec_takePooled_of_cons hI hpool,
    exec_newClaim]

theorem exec_create_of_empty (s : Store) (hdown : s.repo.shutDown = false)
    (hpool : s.repo.pool.items = []) (hids : s.repo.ids.value + 1 < 2 ^ 64) (lossTolerant : Bool) :
    (create lossTolerant).exec s =
      match (selectContainer (s.repo.ids.value + 1)).exec
          { s with repo := { s.repo with ids := ⟨s.repo.ids.value + 1⟩ } } with
      | (.ok (some box), s') => (createIn box (s.repo.ids.value + 1) lossTolerant).exec s'
      | (.ok none, s') => (.ok .blocked, s')
      | (.error e, s') => (.error e, s') := by
  have hsize : s.repo.pool.size = 0 := by simp [Fifo.size, hpool]
  have hnext : s.repo.ids.next = (some (s.repo.ids.value + 1), ⟨s.repo.ids.value + 1⟩) := by
    rw [IdCounter.next, if_pos hids]
  simp [create, exec_bind, hdown, hsize, takePooled, hnext]
  rcases (selectContainer (s.repo.ids.value + 1)).exec
    { s with repo := { s.repo with ids := ⟨s.repo.ids.value + 1⟩, shutDown := false } } with
    ⟨_ | (_ | box), s'⟩ <;> rfl

/-- Creating the claim numbered `index` in a container whose section directory exists and
whose place for the claim is empty: the claim is made writable, its file is made and a stream
opened on it, and its first content claim handed out. -/
theorem exec_createIn (s : Store) {box : Container} {index : Nat} {lossTolerant : Bool}
    {r : Resource} (hr : r = ⟨box.name, box.sectionName index, formatId s.host.now index, lossTolerant⟩)
    {p : Place} (hp : place? box.root = some p) (hs : s.host.disk.Sound)
    (hdir : s.host.disk.node? (p ++ [r.sectionName]) = some .dir)
    (hnone : s.host.disk.node? (livePlace p r) = none) (hreg : s.repo.registered r.key = false) :
    (createIn box index lossTolerant).exec s = (.ok (.claim ⟨r, 0, s.host.cells.size⟩),
      { repo := { s.repo with
          tracker := (s.repo.tracker.increment r true).2,
          streams := (r.key, s.host.streams.size) :: s.repo.streams },
        host := { s.host with
          disk := (s.host.disk.allocate ByteArray.empty s.host.now).2.set (livePlace p r)
            (.file s.host.disk.inodes.size),
          streams := s.host.streams.push ⟨box.claimPath r, s.host.disk.inodes.size, 0, false⟩,
          cells := s.host.cells.push (-1) } }) := by
  have hplain : r.Plain := by
    subst hr
    exact ⟨Path.plain_toString _, Path.plain_formatId _ _⟩
  have hlive : livePlace p r = p ++ [r.sectionName] ++ [r.id] := by simp [livePlace]
  have hopen := Host.openStream_of_none s.host
    (placeOf_of_place? (Container.claimPath_place hp hplain))
    (hlive ▸ hs.reach_append hdir r.id) hnone
  have hkeep : s.repo.streams.filter (·.1 != r.key) = s.repo.streams := by
    refine List.filter_eq_self.2 fun e he => ?_
    have : e.1 ≠ r.key := fun h => by
      rw [← h, ← Bool.not_eq_true, Repo.registered_iff] at hreg
      exact hreg ⟨e.2, he⟩
    simpa using this
  subst hr
  simp [createIn, exec_bind, exec_map, hopen, hkeep, exec_newClaim]

end Action

theorem Handed.Stored.at_end {s : Store} {i : Nat} {r : Resource} {off n : Nat}
    (hsize : (s.host.disk.bytes i).size = off) (hcell : s.host.cell n = -1) :
    (⟨⟨r, off, n⟩, .empty, .fresh⟩ : Handed).Stored s i where
  fits := by simp [hsize]
  bytes := by simp
  cell := by simp [hcell]
  fresh := fun _ => rfl
  last := fun _ => by simp [hsize]
  long := fun h => absurd h (by simp)

/-! ## Numbers not drawn yet -/

/-- No file was made for the number `j`, and nothing lies at its places from now on. -/
def World.Unnumbered (W : World) (j : Nat) : Prop :=
  ∀ c ∈ W.store.repo.containers, ∀ p, place? c.root = some p → ∀ sec t, W.store.host.now ≤ t →
    W.store.host.disk.node? (p ++ [sec, formatId t j]) = none ∧
      W.store.host.disk.node? (p ++ [sec, Archive.dirName, formatId t j]) = none ∧
      (c.name, sec, formatId t j) ∉ W.files.map (·.1)

theorem World.Unnumbered.regate {W : World} {j : Nat} (hu : W.Unnumbered j) {s : Store}
    (h : W.store.Regated s) : ({ W with store := s } : World).Unnumbered j := by
  intro c hc p hp sec t ht
  obtain ⟨c0, hc0, hn, hr, -⟩ := h.mem hc
  have hh : s.host = W.store.host := h.host
  simp only [hh] at ht ⊢
  rw [hn]
  exact hu c0 hc0 p (hr ▸ hp) sec t ht

namespace Inv

variable {W : World}

theorem unnumbered (hI : Inv W) {j : Nat} (hj : W.store.repo.ids.value < j) : W.Unnumbered j :=
  fun c hc p hp sec t ht => hI.unused c hc p hp sec t j ht hj

theorem number (hI : Inv W) {v : Nat} (hv : W.store.repo.ids.value ≤ v) :
    Inv { W with store := { W.store with repo := { W.store.repo with ids := ⟨v⟩ } } } :=
  { hI with
    unused := fun c hc p hp sec t j ht hj =>
      hI.unused c hc p hp sec t j ht (Nat.lt_of_le_of_lt hv hj)
    stored := fun c hc => (hI.stored c hc).imp fun _ hi => ⟨hi.1, hi.2.congr rfl rfl rfl⟩ }

theorem regate (hI : Inv W) {s : Store} (h : W.store.Regated s) : Inv { W with store := s } := by
  obtain ⟨hh, g, hg⟩ := h
  obtain ⟨repo, host⟩ := s
  simp only at hh hg
  subst hh hg
  refine hI.containers (by simp [List.map_map, Function.comp_def]) (fun b hb => ?_) fun b hb => ?_
  · obtain ⟨c, hc, rfl⟩ := List.mem_map.1 hb
    exact hI.binned c hc
  · obtain ⟨c, hc, rfl⟩ := List.mem_map.1 hb
    exact hI.filed c hc

/-- Making the file of the number drawn last keeps the invariant, the file noted for its
resource claim: no file was made for the number before, and only its place changes. -/
theorem make_file (hI : Inv W) {index : Nat} (hids : W.store.repo.ids.value = index)
    (hu : W.Unnumbered index) {box : Container} (hbox : box ∈ W.store.repo.containers)
    {p : Place} (hp : place? box.root = some p) {r : Resource} (hname : r.container = box.name)
    (hsec : r.sectionName = box.sectionName index) (hid : r.id = formatId W.store.host.now index) :
    Inv { store := { W.store with
            host := { W.store.host with
              disk := (W.store.host.disk.allocate ByteArray.empty W.store.host.now).2.set
                (livePlace p r) (.file W.store.host.disk.inodes.size) } }
          handed := W.handed
          files := W.files ++ [(r.key, W.store.host.disk.inodes.size)] } := by
  have hL := hI.layout
  have hdir : W.store.host.disk.node? (p ++ [r.sectionName]) = some .dir := by
    rw [hsec]
    exact hI.sections box hbox p hp _ (Nat.mod_lt _ (hL.sections box hbox))
  obtain ⟨hnone, harch, hnew⟩ := hu box hbox p hp r.sectionName W.store.host.now (Nat.le_refl _)
  rw [← hid] at hnone harch
  have hkey : r.key ∉ W.files.map (·.1) := by
    simpa [Resource.key, hname, hid] using hnew
  have hplain : r.Plain := ⟨by rw [hsec]; exact Path.plain_toString _, by rw [hid]; exact Path.plain_formatId _ _⟩
  have hlive : livePlace p r = p ++ [r.sectionName] ++ [r.id] := by simp [livePlace]
  have hsound := hI.sound.openWrite_append hdir hplain.2 (hlive ▸ hnone) W.store.host.now
  rw [← hlive] at hsound
  have hnode : ∀ q, ((W.store.host.disk.allocate ByteArray.empty W.store.host.now).2.set
      (livePlace p r) (.file W.store.host.disk.inodes.size)).node? q =
        if q = livePlace p r then some (.file W.store.host.disk.inodes.size)
        else W.store.host.disk.node? q := by
    intro q
    by_cases hq : q = livePlace p r
    · simp [hq, livePlace]
    · simp [hq]
  have hbytes : ∀ i, i < W.store.host.disk.inodes.size →
      ((W.store.host.disk.allocate ByteArray.empty W.store.host.now).2.set (livePlace p r)
        (.file W.store.host.disk.inodes.size)).bytes i = W.store.host.disk.bytes i := by
    intro i hi
    rw [Disk.bytes_set, Disk.bytes_allocate, if_neg (Nat.ne_of_lt hi)]
  have hino : ((W.store.host.disk.allocate ByteArray.empty W.store.host.now).2.set (livePlace p r)
      (.file W.store.host.disk.inodes.size)).inodes.size = W.store.host.disk.inodes.size + 1 := by
    simp [Disk.set]
  generalize ((W.store.host.disk.allocate ByteArray.empty W.store.host.now).2.set (livePlace p r)
    (.file W.store.host.disk.inodes.size)) = D at hsound hnode hbytes hino ⊢
  have hat : ∀ c ∈ W.store.repo.containers, ∀ p', place? c.root = some p' → ∀ a b,
      p' ++ [a, b] = livePlace p r → c = box ∧ a = r.sectionName ∧ b = r.id := by
    intro c hc p' hp' a b h
    obtain ⟨rfl, -, hab⟩ := hL.eq_same hc hbox hp' hp (v := [r.sectionName, r.id]) h
    simp only [List.cons.injEq, and_true] at hab
    exact ⟨rfl, hab⟩
  have hdeep : ∀ c ∈ W.store.repo.containers, ∀ p', place? c.root = some p' → ∀ a b,
      p' ++ [a, Archive.dirName, b] ≠ livePlace p r := by
    intro c hc p' hp' a b h
    obtain ⟨-, -, hab⟩ := hL.eq_same hc hbox hp' hp (v := [r.sectionName, r.id]) h
    simp at hab
  have hold : ∀ k, (k, W.store.host.disk.inodes.size) ∉ W.files := fun k h =>
    Nat.lt_irrefl _ (hI.numbered k _ h).2
  refine
    { hI with
      sound := hsound
      sections := fun c hc p' hp' j hj => ?sections
      files_nodup := ?nodup
      files_inj := fun k k' i hk hk' => ?inj
      numbered := fun k i hk => ?numbered
      placed := fun k i hk c hc hname' p' hp' => ?placed
      unused := fun c hc p' hp' sec t j ht hj => ?unused
      stream_file := fun k n hkn => ?stream_file
      stored := fun c hc => ?stored }
  case sections =>
    have hne : p' ++ [toString j] ≠ livePlace p r := fun h => by
      obtain ⟨-, -, hab⟩ := hL.eq_same hc hbox hp' hp (v := [r.sectionName, r.id]) h
      simp at hab
    rw [hnode, if_neg hne]
    exact hI.sections c hc p' hp' j hj
  case nodup =>
    simp only [List.map_append, List.map_cons, List.map_nil]
    refine List.nodup_append.2 ⟨hI.files_nodup, List.nodup_singleton _, fun a ha b hb => ?_⟩
    rw [List.mem_singleton.1 hb]
    rintro rfl
    exact hkey ha
  case inj =>
    rcases List.mem_append.1 hk with hk | hk <;> rcases List.mem_append.1 hk' with hk' | hk'
    · exact hI.files_inj k k' i hk hk'
    · obtain ⟨-, rfl⟩ := Prod.mk.inj (List.mem_singleton.1 hk')
      exact absurd hk (hold k)
    · obtain ⟨-, rfl⟩ := Prod.mk.inj (List.mem_singleton.1 hk)
      exact absurd hk' (hold k')
    · rw [(Prod.mk.inj (List.mem_singleton.1 hk)).1, (Prod.mk.inj (List.mem_singleton.1 hk')).1]
  case numbered =>
    rw [hino]
    rcases List.mem_append.1 hk with hk | hk
    · exact ⟨(hI.numbered k i hk).1, Nat.lt_succ_of_lt (hI.numbered k i hk).2⟩
    · obtain ⟨rfl, rfl⟩ := Prod.mk.inj (List.mem_singleton.1 hk)
      refine ⟨⟨⟨box, hbox, hname.symm⟩, ⟨hplain.1, ?_⟩, ⟨hplain.2, ?_⟩⟩, Nat.lt_succ_self _⟩
      · show r.sectionName ≠ Archive.dirName
        rw [hsec]
        exact Path.toString_ne_dirName _
      · show r.id ≠ Archive.dirName
        rw [hid]
        exact Path.formatId_ne_dirName _ _
  case placed =>
    rcases List.mem_append.1 hk with hk | hk
    · obtain ⟨h1, h2⟩ := hI.placed k i hk c hc hname' p' hp'
      refine ⟨?_, by rw [HoldsAt, hnode, if_neg (hdeep c hc p' hp' _ _)]; exact h2⟩
      by_cases heq : p' ++ [k.2.1, k.2.2] = livePlace p r
      -- the new file's place belongs to no noted claim
      · obtain ⟨rfl, h3, h4⟩ := hat c hc p' hp' _ _ heq
        have : k = r.key := Prod.ext (hname'.symm.trans hname.symm) (Prod.ext h3 h4)
        exact absurd (List.mem_map.2 ⟨(k, i), hk, this⟩) hkey
      · rw [HoldsAt, hnode, if_neg heq]
        exact h1
    · obtain ⟨rfl, rfl⟩ := Prod.mk.inj (List.mem_singleton.1 hk)
      obtain rfl : c = box := List.inj_on_of_nodup_map hL.names hc hbox (hname'.trans hname)
      rw [hp] at hp'
      cases hp'
      refine ⟨.inr ?_, .inl ?_⟩
      · rw [hnode, if_pos (show p ++ [r.key.2.1, r.key.2.2] = livePlace p r from rfl)]
      · rw [hnode, if_neg (hdeep c hc p hp _ _)]
        exact harch
  case unused =>
    rw [hids] at hj
    -- the new file is at the drawn number's place, and no later number's
    have hid' : formatId t j ≠ r.id := fun h => by
      rw [hid] at h
      exact Nat.ne_of_gt hj (Path.formatId_inj h).2
    obtain ⟨h1, h2, h3⟩ := hI.unused c hc p' hp' sec t j ht (hids ▸ hj)
    refine ⟨?_, ?_, ?_⟩
    · by_cases heq : p' ++ [sec, formatId t j] = livePlace p r
      · exact absurd (hat c hc p' hp' _ _ heq).2.2 hid'
      · rw [hnode, if_neg heq]
        exact h1
    · rw [hnode, if_neg (hdeep c hc p' hp' _ _)]
      exact h2
    · simp only [List.map_append, List.map_cons, List.map_nil, List.mem_append, List.mem_singleton,
        not_or]
      refine ⟨h3, fun h => hid' ?_⟩
      simpa [Resource.key] using congrArg (·.2.2) h
  case stream_file =>
    obtain ⟨hc, i, hi, hin, hw⟩ := hI.stream_file k n hkn
    exact ⟨hc, i, List.mem_append_left _ hi, hin, by rw [hbytes i (hI.numbered k i hi).2]; exact hw⟩
  case stored =>
    obtain ⟨i, hi, hs⟩ := hI.stored c hc
    exact ⟨i, List.mem_append_left _ hi, hs.congr (hbytes i (hI.numbered _ i hi).2) rfl rfl⟩

/-! ## Handing out a claim -/

theorem cells_append (hI : Inv W) (x : Handed) (hx : x.claim.cell = W.store.host.cells.size)
    (v : Int) : ((W.handed ++ [x]).map (·.claim.cell)).Nodup ∧
      ∀ c ∈ W.handed ++ [x], c.claim.cell < (W.store.host.cells.push v).size := by
  refine ⟨?_, fun c hc => ?_⟩
  · simp only [List.map_append, List.map_cons, List.map_nil]
    refine List.nodup_append.2 ⟨hI.cells.1, List.nodup_singleton _, fun a ha b hb => ?_⟩
    obtain ⟨c, hc, rfl⟩ := List.mem_map.1 ha
    rw [List.mem_singleton.1 hb, hx]
    exact Nat.ne_of_lt (hI.cells.2 c hc)
  · rw [Array.size_push]
    rcases List.mem_append.1 hc with hc | hc
    · exact Nat.lt_succ_of_lt (hI.cells.2 c hc)
    · rw [List.mem_singleton.1 hc, hx]
      exact Nat.lt_succ_self _

/-- Taking the pool's first entry and handing out a claim at its length keeps the invariant:
the new claim holds the resource claim in the entry's stead. -/
theorem take_pooled (hI : Inv W) {c : Resource} {len : Nat} {rest : List (Resource × Nat)}
    (hpool : W.store.repo.pool.items = (c, len) :: rest) :
    Inv { store :=
            { repo := { W.store.repo with
                pool := W.store.repo.pool.poll.2
                tracker := (W.store.repo.tracker.increment c false).2 }
              host := { W.store.host with cells := W.store.host.cells.push (-1) } }
          handed := W.handed ++ [⟨⟨c, len, W.store.host.cells.size⟩, .empty, .fresh⟩]
          files := W.files } := by
  obtain ⟨n, hn, hwn, -⟩ := hI.pool c len (hpool ▸ List.mem_cons_self)
  obtain ⟨-, i, hi, -, hwi⟩ := hI.stream_file _ n hn
  have hcell := Host.cell_of_push W.store.host
    (g := { W.store.host with cells := W.store.host.cells.push (-1) }) rfl
  refine
    { hI with
      writable := fun k => ?writable
      pool := fun c' len' h => hI.pool c' len' ?pool
      holders := fun k => ?holders
      stored := fun h hh => ?stored
      cells := hI.cells_append _ rfl (-1)
      writer := fun h hh w hw => ?writer
      queued := fun x hx => hI.queued x (by rwa [Tracker.queue_increment] at hx) }
  case writable =>
    have hw := hI.writable k
    simp only [Repo.registered] at hw ⊢
    rw [hw, Tracker.record_increment]
    split <;> simp_all
  case pool =>
    rw [Fifo.poll_items, hpool] at h
    rw [hpool]
    exact List.mem_cons_of_mem _ h
  case holders =>
    have h := hI.holders k
    rw [hpool, List.countP_cons] at h
    change _ = if W.store.repo.registered k then 1 else 0
    rw [List.countP_append, Fifo.poll_items, hpool, List.tail_cons, List.countP_singleton]
    by_cases hk : c.key = k <;> simp [hk, Phase.active, Handed.key] at h ⊢ <;> omega
  case stored =>
    rcases List.mem_append.1 hh with hh | hh
    · exact (hI.stored h hh).imp fun _ hs => ⟨hs.1, hs.2.congr rfl
        (by rw [hcell, if_neg (Nat.ne_of_lt (hI.cells.2 h hh))]) rfl⟩
    · rw [List.mem_singleton.1 hh]
      exact ⟨i, hi, Handed.Stored.at_end (hwi.symm.trans hwn) (by rw [hcell, if_pos rfl])⟩
  case writer =>
    rcases List.mem_append.1 hh with hh | hh
    · exact hI.writer h hh w hw
    · rw [List.mem_singleton.1 hh] at hw
      cases hw

/-- Opening a stream on the empty file of a resource claim without one, and handing out a claim
at its start, keeps the invariant. -/
theorem open_stream (hI : Inv W) {r : Resource} {i : Nat} (hi : (r.key, i) ∈ W.files)
    (hreg : W.store.repo.registered r.key = false) (hfree : ∀ c ∈ W.handed, c.key ≠ r.key)
    (hsize : (W.store.host.disk.bytes i).size = 0) (path : String) :
    Inv { store :=
            { repo := { W.store.repo with
                tracker := (W.store.repo.tracker.increment r true).2
                streams := (r.key, W.store.host.streams.size) :: W.store.repo.streams }
              host := { W.store.host with
                streams := W.store.host.streams.push ⟨path, i, 0, false⟩
                cells := W.store.host.cells.push (-1) } }
          handed := W.handed ++ [⟨⟨r, 0, W.store.host.cells.size⟩, .empty, .fresh⟩]
          files := W.files } := by
  have hnew : ∀ n, (r.key, n) ∉ W.store.repo.streams := fun n hn => by
    rw [← Bool.not_eq_true, Repo.registered_iff] at hreg
    exact hreg ⟨n, hn⟩
  have hold : W.store.repo.streams.any (·.1 == r.key) = false := by
    simpa [Repo.registered] using hreg
  have hstream := Host.stream_of_push W.store.host (g := { W.store.host with
    streams := W.store.host.streams.push ⟨path, i, 0, false⟩
    cells := W.store.host.cells.push (-1) }) rfl
  have hcell := Host.cell_of_push W.store.host (g := { W.store.host with
    streams := W.store.host.streams.push ⟨path, i, 0, false⟩
    cells := W.store.host.cells.push (-1) }) rfl
  have hopen : ∀ n, (W.store.host.stream n).closed = false → n ≠ W.store.host.streams.size :=
    fun n hn => Nat.ne_of_lt (Host.lt_size_of_open _ hn)
  refine
    { hI with
      streams_nodup := ?nodup
      writable := fun k => ?writable
      stream_file := fun k n hkn => ?stream_file
      pool := fun c len h => ?pool
      holders := fun k => ?holders
      stored := fun h hh => ?stored
      cells := hI.cells_append _ rfl (-1)
      writer := fun h hh w hw => ?writer
      queued := fun x hx => hI.queued x (by rwa [Tracker.queue_increment] at hx) }
  case nodup =>
    refine List.nodup_cons.2 ⟨fun h => ?_, hI.streams_nodup⟩
    obtain ⟨⟨k, n⟩, hkn, rfl⟩ := List.mem_map.1 h
    exact hnew n hkn
  case writable =>
    have hw := hI.writable k
    simp only [Repo.registered] at hw ⊢
    rw [List.any_cons, hw, Tracker.record_increment]
    by_cases hk : k = r.key
    · subst hk
      simp [Lifecycle.isWritable]
    · simp [hk, Ne.symm hk]
  case stream_file =>
    rcases List.mem_cons.1 hkn with h | h
    · obtain ⟨rfl, rfl⟩ := Prod.mk.inj h
      rw [hstream, if_pos rfl]
      exact ⟨rfl, i, hi, rfl, hsize.symm⟩
    · obtain ⟨hc, i', hi', hin, hw⟩ := hI.stream_file k n h
      rw [hstream, if_neg (hopen n hc)]
      exact ⟨hc, i', hi', hin, hw⟩
  case pool =>
    obtain ⟨n, hn, hw, hlt⟩ := hI.pool c len h
    refine ⟨n, List.mem_cons_of_mem _ hn, ?_, hlt⟩
    rw [hstream, if_neg (hopen n (hI.stream_file _ n hn).1)]
    exact hw
  case holders =>
    have h := hI.holders k
    change _ = if (r.key == k || W.store.repo.registered k) then 1 else 0
    have hx : ((⟨⟨r, 0, W.store.host.cells.size⟩, .empty, .fresh⟩ : Handed).phase.active &&
        (Handed.key ⟨⟨r, 0, W.store.host.cells.size⟩, .empty, .fresh⟩ == k)) = (r.key == k) := by
      simp [Phase.active, Handed.key]
    rw [List.countP_append, List.countP_singleton, hx]
    by_cases hk : r.key = k
    · subst hk
      rw [hreg, if_neg Bool.false_ne_true] at h
      simp only [beq_self_eq_true, Bool.true_or, if_true]
      omega
    · have hb : (r.key == k) = false := by simpa using hk
      simp only [hb, Bool.false_or, Bool.false_eq_true, if_false, Nat.add_zero]
      exact h
  case stored =>
    rcases List.mem_append.1 hh with hh | hh
    · refine (hI.stored h hh).imp fun _ hs => ⟨hs.1, hs.2.congr rfl ?_ ?_⟩
      · rw [hcell, if_neg (Nat.ne_of_lt (hI.cells.2 h hh))]
      · simp only [Repo.registered, List.any_cons]
        simp [Ne.symm (hfree h hh)]
    · rw [List.mem_singleton.1 hh]
      exact ⟨i, hi, Handed.Stored.at_end hsize (by rw [hcell, if_pos rfl])⟩
  case writer =>
    rcases List.mem_append.1 hh with hh | hh
    · obtain ⟨h1, h2, h3⟩ := hI.writer h hh w hw
      exact ⟨h1, List.mem_cons_of_mem _ h2, h3⟩
    · rw [List.mem_singleton.1 hh] at hw
      cases hw

theorem note_cons (hI : Inv W) {s : Store} {k : ClaimKey} {m : Nat}
    (hs : s.repo.streams = (k, m) :: W.store.repo.streams) (hk : k ∉ W.files.map (·.1)) :
    World.note W.files s = W.files ++ [(k, (s.host.stream m).inode)] := by
  have h0 := hI.note_eq (s := W.store) fun k n hkn => ⟨n, hkn⟩
  unfold World.note at h0 ⊢
  have hnil : W.store.repo.streams.filter (fun e => !W.files.any (·.1 == e.1)) = [] :=
    List.map_eq_nil_iff.1 (List.append_right_eq_self.1 h0)
  have hany : (!W.files.any (·.1 == k)) = true := by
    simpa [List.any_eq_true] using fun e he (hke : e.1 = k) => hk (List.mem_map.2 ⟨e, he, hke⟩)
  rw [hs, List.filter_cons, if_pos hany, hnil]
  rfl

/-- A create step keeps the invariant, as long as numbers are left to draw. -/
theorem step_create (hI : Inv W) (hids : W.store.repo.ids.value + 1 < 2 ^ 64)
    (lossTolerant : Bool) : Inv (W.step (.create lossTolerant)) := by
  cases hpool : W.store.repo.pool.items with
  | cons e rest =>
    obtain ⟨c, len⟩ := e
    have hI' := hI.take_pooled hpool
    simp only [World.step, Action.exec_create_of_pooled hI hpool]
    -- the resource claim taken from the pool keeps its stream: no file is noted
    rw [World.after, hI.note_eq fun k n hkn => ?_]
    · exact hI'
    · exact ⟨n, hkn⟩
  | nil =>
    simp only [World.step, Action.exec_create_of_empty W.store hI.running.1 hpool hids]
    have hI1 := hI.number (Nat.le_succ W.store.repo.ids.value)
    have hu1 : ({ W with store := { W.store with repo := { W.store.repo with
        ids := ⟨W.store.repo.ids.value + 1⟩ } } } : World).Unnumbered (W.store.repo.ids.value + 1) :=
      hI.unnumbered (Nat.lt_add_one _)
    generalize hs1 : ({ W.store with repo := { W.store.repo with
      ids := ⟨W.store.repo.ids.value + 1⟩ } } : Store) = s1 at hI1 hu1 ⊢
    have hids1 : s1.repo.ids.value = W.store.repo.ids.value + 1 := by rw [← hs1]
    have hnd : (s1.repo.containers.map (·.name)).Nodup := by
      rw [← hs1]
      exact hI.layout.names
    generalize W.store.repo.ids.value + 1 = index at hids1 hu1 ⊢
    obtain ⟨hreg, hmem⟩ := Action.selectContainer_regated index s1 hnd
    rcases hsel : (Action.selectContainer index).exec s1 with ⟨_ | (_ | box), s2⟩ <;>
      rw [hsel] at hreg hmem <;> dsimp only at hreg hmem ⊢ <;>
      have hI2 : Inv { W with store := s2 } := hI1.regate hreg
    -- every container makes creators wait, or choosing failed: only gates changed
    · rw [after_eq hI2]
      exact hI2
    · rw [after_eq hI2]
      exact hI2
    · have hbox : box ∈ s2.repo.containers := hmem box rfl
      have hu2 : ({ W with store := s2 } : World).Unnumbered index := hu1.regate hreg
      have hids2 : s2.repo.ids.value = index := by
        obtain ⟨-, g, hg⟩ := hreg
        rw [hg]
        exact hids1
      obtain ⟨p, hp⟩ := Option.isSome_iff_exists.1 (hI2.layout.rooted box hbox)
      obtain ⟨hnone, -, hnew⟩ := hu2 box hbox p hp (box.sectionName index) s2.host.now (Nat.le_refl _)
      have hA := hI2.make_file hids2 hu2 hbox hp
        (r := ⟨box.name, box.sectionName index, formatId s2.host.now index, lossTolerant⟩) rfl rfl rfl
      have hkey : (box.name, box.sectionName index, formatId s2.host.now index) ∉ W.files.map (·.1) :=
        hnew
      have hregr : s2.repo.registered (box.name, box.sectionName index, formatId s2.host.now index)
          = false := by
        refine Bool.eq_false_iff.2 fun h => ?_
        obtain ⟨n, hn⟩ := (Repo.registered_iff _ _).1 h
        obtain ⟨-, i, hi, -⟩ := hI2.stream_file _ n hn
        exact hkey (List.mem_map.2 ⟨_, hi, rfl⟩)
      have hdir := hI2.sections box hbox p hp _ (Nat.mod_lt index (hI2.layout.sections box hbox))
      rw [Action.exec_createIn s2 rfl hp hI2.sound hdir hnone hregr]
      dsimp only
      have hB := hA.open_stream (List.mem_append_right _ (List.mem_singleton_self _)) hregr
        (fun c hc h => by
          obtain ⟨i, hi, -⟩ := hI2.stored c hc
          exact hkey (List.mem_map.2 ⟨_, hi, h⟩))
        (by rw [Disk.bytes_set, Disk.bytes_allocate, if_pos rfl]; rfl)
        (box.claimPath ⟨box.name, box.sectionName index, formatId s2.host.now index, lossTolerant⟩)
      rw [World.after, hI2.note_cons rfl hkey, Host.stream_of_push s2.host rfl, if_pos rfl]
      exact hB

end Inv

end ClaimStore
