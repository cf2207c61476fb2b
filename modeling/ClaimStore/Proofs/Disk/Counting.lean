import ClaimStore.Proofs.Disk.Clearing
/-!
# Counting archived files

A container counts its archived files by listing each section's archive directory. On a keyed
sound disk a listing names each entry of the directory once, so the count is fixed by which
archived places hold files: a change of the disk that keeps them keeps the count
(`Container.countArchived_congr`), and one that adds a single archived file raises it by one
(`Container.countArchived_add`).
-/

set_option autoImplicit false

namespace ClaimStore

open ClaimStore.Claim ClaimStore.FileSystem

namespace FileSystem.Disk

variable {d d' : Disk} {A : Place}

/-- A place holds a regular file. -/
def HasFile (d : Disk) (q : Place) : Prop := ∃ i, d.node? q = some (.file i)

/-- The names of the regular files directly in a directory. -/
def fileNames (d : Disk) (A : Place) : List String :=
  ((d.children A).filter fun e => e.2 != .dir).map Prod.fst

theorem mem_fileNames (hk : d.Keyed) {n : String} : n ∈ d.fileNames A ↔ d.HasFile (A ++ [n]) := by
  simp only [fileNames, List.mem_map, List.mem_filter, bne_iff_ne, ne_eq, HasFile]
  constructor
  · rintro ⟨⟨x, m⟩, ⟨hm, hdir⟩, rfl⟩
    cases m with
    | dir => exact absurd rfl hdir
    | file i => exact ⟨i, hk.mem_children.1 hm⟩
  · rintro ⟨i, hi⟩
    exact ⟨(n, .file i), ⟨hk.mem_children.2 hi, by simp⟩, rfl⟩

theorem nodup_fileNames (hk : d.Keyed) (A : Place) : (d.fileNames A).Nodup :=
  (hk.children_names A).sublist (List.filter_sublist.map Prod.fst)

/-- A directory listing the same files lists as many. -/
theorem length_fileNames_congr (hk : d.Keyed) (hk' : d'.Keyed)
    (h : ∀ n, d'.HasFile (A ++ [n]) ↔ d.HasFile (A ++ [n])) :
    (d'.fileNames A).length = (d.fileNames A).length := by
  refine ((List.perm_ext_iff_of_nodup (nodup_fileNames hk' A) (nodup_fileNames hk A)).2
    fun n => ?_).length_eq
  rw [mem_fileNames hk', mem_fileNames hk, h]

/-- A directory listing one file more lists one more. -/
theorem length_fileNames_add (hk : d.Keyed) (hk' : d'.Keyed) {n0 : String}
    (hnew : ¬ d.HasFile (A ++ [n0])) (hnow : d'.HasFile (A ++ [n0]))
    (h : ∀ n, n ≠ n0 → (d'.HasFile (A ++ [n]) ↔ d.HasFile (A ++ [n]))) :
    (d'.fileNames A).length = (d.fileNames A).length + 1 := by
  have hnd : (n0 :: d.fileNames A).Nodup :=
    List.nodup_cons.2 ⟨fun hm => hnew ((mem_fileNames hk).1 hm), nodup_fileNames hk A⟩
  refine ((List.perm_ext_iff_of_nodup (nodup_fileNames hk' A) hnd).2 fun n => ?_).length_eq
  rw [mem_fileNames hk', List.mem_cons, mem_fileNames hk]
  by_cases hn : n = n0
  · subst hn
    simp [hnow]
  · simp [hn, h n hn]

/-- On a sound keyed disk a place that is not a directory lists nothing. -/
theorem children_of_not_dir (hs : d.Sound) (hk : d.Keyed) (h : d.isDir A = false) :
    d.children A = [] := by
  refine List.eq_nil_iff_forall_not_mem.2 fun e hm => ?_
  have habove := hs.above _ e.2 (hk.mem_children.1 hm) A.length (by simp)
  rw [List.take_left] at habove
  simp [isDir, habove] at h


theorem Grows.hasFile {S : Place → Prop} (hg : d.Grows d' S) {q : Place} :
    d'.HasFile q ↔ d.HasFile q := by
  rcases hg.node q with h | ⟨h, h', -⟩
  · simp only [HasFile, h]
  · simp [HasFile, h, h']

/-! ## More operations keep a disk keyed -/

theorem Keyed.makeDir (hk : d.Keyed) {p : Place} (h : d.makeDir p = .ok d') : d'.Keyed := by
  unfold Disk.makeDir at h
  cases hl : d.lookup p with
  | error e => simp [hl, bind, Except.bind] at h
  | ok o =>
    rcases o with _ | n <;> simp [hl, bind, Except.bind, throw, throwThe, MonadExceptOf.throw,
      pure, Except.pure] at h
    exact h ▸ hk.set _ _

theorem Keyed.makeDirsAt (hk : d.Keyed) {t : String} (h : d.makeDirsAt t = .ok d') : d'.Keyed := by
  unfold Disk.makeDirsAt at h
  split at h
  · cases h
    exact hk
  · cases hp : placeOf t with
    | error e => simp [hp, bind, Except.bind] at h
    | ok p =>
      simp only [hp, bind, Except.bind] at h
      exact hk.makeDirs h

theorem Keyed.openWrite (hk : d.Keyed) {p : Place} {how : Opening} {now i : Nat}
    (h : d.openWrite p how now = .ok (i, d')) : d'.Keyed := by
  unfold Disk.openWrite at h
  cases hl : d.lookup p with
  | error e => simp [hl, bind, Except.bind] at h
  | ok o =>
    rw [hl] at h
    rcases o with _ | _ | j
    · simp only [bind, Except.bind, allocate, pure, Except.pure, Except.ok.injEq,
        Prod.mk.injEq] at h
      obtain ⟨-, rfl⟩ := h
      exact Keyed.set (d := { d with inodes := _ }) hk _ _
    · simp [bind, Except.bind, throw, throwThe, MonadExceptOf.throw] at h
    · cases how <;> simp [bind, Except.bind, throw, throwThe, MonadExceptOf.throw, pure,
        Except.pure] at h
      · exact h.2 ▸ hk
      · exact h.2 ▸ hk

/-! ## Trees a repository makes -/

/-- Below `p` lies a tree a repository with sections `names` makes: every file lies in one of
the sections, no directory stands in a section but its archive directory, and no name has both
a file in a section and one in the section's archive directory. -/
structure Tidy (d : Disk) (p : Place) (names : List String) : Prop where
  owned : ∀ x rest, d.HasFile (p ++ x :: rest) → x ∈ names
  flat : ∀ x n, n ≠ Archive.dirName → d.node? (p ++ [x, n]) ≠ some .dir
  fresh : ∀ x n, d.HasFile (p ++ [x, n]) → ¬ d.HasFile (p ++ [x, Archive.dirName, n])

namespace Tidy

variable {p : Place} {names : List String}

/-- A disk with no file and no directory in a section that `d` lacks is as tidy. -/
theorem mono (h : d.Tidy p names)
    (hfile : ∀ x rest, d'.HasFile (p ++ x :: rest) → d.HasFile (p ++ x :: rest))
    (hdir : ∀ x n, n ≠ Archive.dirName → d'.node? (p ++ [x, n]) = some .dir →
      d.node? (p ++ [x, n]) = some .dir) :
    d'.Tidy p names where
  owned x rest hq := h.owned x rest (hfile _ _ hq)
  flat x n hn hq := h.flat x n hn (hdir x n hn hq)
  fresh x n hq ha := h.fresh x n (hfile _ _ hq) (hfile _ _ ha)

/-- A new file in a section, for a name with no archived file. -/
theorem add (h : d.Tidy p names) {x0 n0 : String} (hx0 : x0 ∈ names)
    (hfree : ¬ d.HasFile (p ++ [x0, Archive.dirName, n0]))
    (hnode : ∀ q, q ≠ p ++ [x0, n0] → d'.node? q = d.node? q)
    (hL : d'.HasFile (p ++ [x0, n0])) : d'.Tidy p names := by
  have hsame : ∀ q, q ≠ p ++ [x0, n0] → (d'.HasFile q ↔ d.HasFile q) := fun q hq => by
    simp only [HasFile, hnode q hq]
  refine ⟨fun x rest hq => ?_, fun x n hn hq => ?_, fun x n hq ha => ?_⟩
  · by_cases hxL : p ++ x :: rest = p ++ [x0, n0]
    · simp only [List.append_cancel_left_eq, List.cons.injEq] at hxL
      exact hxL.1 ▸ hx0
    · exact h.owned x rest ((hsame _ hxL).1 hq)
  · by_cases hxL : p ++ [x, n] = p ++ [x0, n0]
    · obtain ⟨i, hi⟩ := hL
      rw [hxL, hi] at hq
      cases hq
    · exact h.flat x n hn (by rwa [← hnode _ hxL])
  · have ha' := (hsame _ (by simp)).1 ha
    by_cases hxL : p ++ [x, n] = p ++ [x0, n0]
    · simp only [List.append_cancel_left_eq, List.cons.injEq, and_true] at hxL
      obtain ⟨rfl, rfl⟩ := hxL
      exact hfree ha'
    · exact h.fresh x n ((hsame _ hxL).1 hq) ha'

/-- A file of a section moved into the section's archive directory, made if missing. -/
theorem move (h : d.Tidy p names) {x0 n0 : String} (hlive : d.HasFile (p ++ [x0, n0]))
    (hnode : ∀ q, q ≠ p ++ [x0, n0] → q ≠ p ++ [x0, Archive.dirName, n0] →
      q ≠ p ++ [x0, Archive.dirName] → d'.node? q = d.node? q)
    (hL : d'.node? (p ++ [x0, n0]) = none) (hA : d'.node? (p ++ [x0, Archive.dirName]) = some .dir) :
    d'.Tidy p names := by
  have hx0 := h.owned x0 [n0] hlive
  have hnotL : ∀ q, d'.HasFile q → q ≠ p ++ [x0, n0] := by
    rintro q ⟨i, hi⟩ rfl
    rw [hL] at hi
    cases hi
  have hnotA : ∀ q, d'.HasFile q → q ≠ p ++ [x0, Archive.dirName] := by
    rintro q ⟨i, hi⟩ rfl
    rw [hA] at hi
    cases hi
  -- every file of `d'` but the archived one was a file of `d`
  have hold : ∀ q, d'.HasFile q → q ≠ p ++ [x0, Archive.dirName, n0] → d.HasFile q := by
    intro q hq hT
    obtain ⟨i, hi⟩ := hq
    exact ⟨i, by rwa [← hnode q (hnotL q ⟨i, hi⟩) hT (hnotA q ⟨i, hi⟩)]⟩
  refine ⟨fun x rest hq => ?_, fun x n hn hq => ?_, fun x n hq ha => ?_⟩
  · by_cases hxT : p ++ x :: rest = p ++ [x0, Archive.dirName, n0]
    · simp only [List.append_cancel_left_eq, List.cons.injEq] at hxT
      exact hxT.1 ▸ hx0
    · exact h.owned x rest (hold _ hq hxT)
  · by_cases hxL : p ++ [x, n] = p ++ [x0, n0]
    · rw [hxL, hL] at hq
      cases hq
    by_cases hxA : p ++ [x, n] = p ++ [x0, Archive.dirName]
    · simp only [List.append_cancel_left_eq, List.cons.injEq, and_true] at hxA
      exact hn hxA.2
    · exact h.flat x n hn (by rwa [← hnode _ hxL (by simp) hxA])
  · have hxT : p ++ [x, Archive.dirName, n] ≠ p ++ [x0, Archive.dirName, n0] := by
      have hxL := hnotL _ hq
      simp only [ne_eq, List.append_cancel_left_eq, List.cons.injEq, true_and, and_true] at hxL ⊢
      exact fun h => hxL ⟨h.1, h.2⟩
    exact h.fresh x n (hold _ hq (by simp)) (hold _ ha hxT)

end Tidy

end FileSystem.Disk

namespace Container

open FileSystem.Disk

variable {c : Container} {d d' : Disk} {p : Place}

theorem sectionNames_nodup (c : Container) : c.sectionNames.Nodup :=
  List.nodup_range.map fun _ _ h => Path.toString_inj h

theorem length_archivedFiles (hs : d.Sound) (hk : d.Keyed) {sec : String} {A : Place}
    (hA : place? (c.archiveDir sec) = some A) :
    (c.archivedFiles d sec).length = (d.fileNames A).length := by
  unfold archivedFiles
  simp only [hA]
  split
  · rw [List.length_filterMap_eq_countP, List.countP_eq_length_filter, fileNames, List.length_map]
    congr 2
    funext e
    obtain ⟨n, _ | i⟩ := e <;> rfl
  · rename_i hdir
    simp [fileNames, children_of_not_dir hs hk (by simpa using hdir)]

/-- The count is the number of files listed in the sections' archive directories. -/
theorem countArchived_eq (hs : d.Sound) (hk : d.Keyed) (hp : place? c.root = some p) :
    c.countArchived d =
      (c.sectionNames.map fun x => (d.fileNames (p ++ [x, Archive.dirName])).length).sum := by
  unfold countArchived
  congr 1
  refine List.map_congr_left fun x hx => ?_
  obtain ⟨j, -, rfl⟩ := mem_sectionNames.1 hx
  exact length_archivedFiles hs hk (archiveDir_place hp (Path.plain_toString j))

/-- Two disks with files at the same archived places count alike. -/
theorem countArchived_congr (hs : d.Sound) (hk : d.Keyed) (hs' : d'.Sound) (hk' : d'.Keyed)
    (hp : place? c.root = some p)
    (h : ∀ x ∈ c.sectionNames, ∀ n,
      d'.HasFile (p ++ [x, Archive.dirName, n]) ↔ d.HasFile (p ++ [x, Archive.dirName, n])) :
    c.countArchived d' = c.countArchived d := by
  rw [countArchived_eq hs' hk' hp, countArchived_eq hs hk hp]
  congr 1
  refine List.map_congr_left fun x hx => length_fileNames_congr hk hk' fun n => ?_
  simpa using h x hx n

theorem sum_map_add_one {l : List String} (hl : l.Nodup) {a : String} (ha : a ∈ l)
    {f g : String → Nat} (hg : g a = f a + 1) (hfg : ∀ x ∈ l, x ≠ a → g x = f x) :
    (l.map g).sum = (l.map f).sum + 1 := by
  induction l with
  | nil => cases ha
  | cons x l ih =>
    obtain ⟨hx, hl⟩ := List.nodup_cons.1 hl
    simp only [List.map_cons, List.sum_cons]
    by_cases hxa : x = a
    · subst hxa
      have hrest : l.map g = l.map f :=
        List.map_congr_left fun y hy => hfg y (List.mem_cons_of_mem _ hy) fun h => hx (h ▸ hy)
      rw [hg, hrest]
      omega
    · rw [hfg x List.mem_cons_self hxa,
        ih hl ((List.mem_cons.1 ha).resolve_left (Ne.symm hxa))
          fun y hy => hfg y (List.mem_cons_of_mem _ hy)]
      omega

/-- A disk with one archived file more, in one of the sections, counts one more. -/
theorem countArchived_add (hs : d.Sound) (hk : d.Keyed) (hs' : d'.Sound) (hk' : d'.Keyed)
    (hp : place? c.root = some p) {x0 n0 : String} (hx0 : x0 ∈ c.sectionNames)
    (hnew : ¬ d.HasFile (p ++ [x0, Archive.dirName, n0]))
    (hnow : d'.HasFile (p ++ [x0, Archive.dirName, n0]))
    (h : ∀ x ∈ c.sectionNames, ∀ n, (x, n) ≠ (x0, n0) →
      (d'.HasFile (p ++ [x, Archive.dirName, n]) ↔ d.HasFile (p ++ [x, Archive.dirName, n]))) :
    c.countArchived d' = c.countArchived d + 1 := by
  rw [countArchived_eq hs' hk' hp, countArchived_eq hs hk hp]
  refine sum_map_add_one c.sectionNames_nodup hx0 ?_ fun x hx hne => ?_
  · refine length_fileNames_add hk hk' (by simpa using hnew) (by simpa using hnow) fun n hn => ?_
    simpa using h x0 hx0 n (by simp [hn])
  · exact length_fileNames_congr hk hk' fun n => by simpa using h x hx n (by simp [hne])

/-- Growing directories only keeps the count. -/
theorem countArchived_of_grows {S : Place → Prop} (hs : d.Sound) (hk : d.Keyed) (hs' : d'.Sound)
    (hk' : d'.Keyed) (hg : d.Grows d' S) (hp : place? c.root = some p) :
    c.countArchived d' = c.countArchived d :=
  countArchived_congr hs hk hs' hk' hp fun _ _ _ => hg.hasFile

/-! ## Opening counts what is there -/

theorem keyed_layOutStep {acc : IoResult Disk × Disk} (hk : acc.2.Keyed) (sec : String) :
    (c.layOutStep acc sec).2.Keyed := by
  obtain ⟨_ | _, d⟩ := acc
  · exact hk
  · unfold layOutStep
    dsimp only
    split
    · exact hk
    · split
      · next d' hmk =>
        cases hq : Disk.placeOf (c.sectionPath sec) with
        | error e => simp [hq, bind, Except.bind] at hmk
        | ok q =>
          simp only [hq, bind, Except.bind] at hmk
          exact Keyed.makeDir hk hmk
      · exact hk

theorem keyed_layOut (hk : d.Keyed) : (c.layOut d).2.Keyed := by
  unfold layOut
  suffices ∀ (L : List String) (acc : IoResult Disk × Disk), acc.2.Keyed →
      (L.foldl c.layOutStep acc).2.Keyed from this _ _ hk
  intro L
  induction L with
  | nil => exact fun _ h => h
  | cons sec L ih => exact fun acc h => ih _ (keyed_layOutStep h sec)

/-- Setting up a container keeps the disk keyed and has the gate count the archived files the
disk holds afterwards. -/
theorem setUp_tally {s : Config.Resolved} {probe : Probe} {name root : String} (hk : d.Keyed)
    (h : Container.setUp s probe d name root = (.ok c, d')) :
    d'.Keyed ∧ c.gate.archived = c.countArchived d' % 2 ^ 64 := by
  unfold Container.setUp at h
  split at h
  · cases h
  next d1 hmk =>
  rcases hcap : probe.capacity root d1 with e | (_ | capacity) <;> simp only [hcap] at h
  · cases h
  · cases h
  generalize Container.create name root s.sections _ s.reclaimQueue _ = c0 at h
  have hk2 := keyed_layOut (c := c0) (Keyed.makeDirsAt hk hmk)
  rcases hlay : c0.layOut d1 with ⟨_ | u, d2⟩ <;> simp only [hlay] at h hk2
  · cases h
  · simp only [Prod.mk.injEq, Except.ok.injEq] at h
    obtain ⟨rfl, rfl⟩ := h
    exact ⟨hk2, rfl⟩

/-- Opening containers over a sound keyed disk keeps it keyed, and each gate counts the archived
files the disk held before: opening makes directories only. -/
theorem setUpAll_tally {s : Config.Resolved} {probe : Probe} :
    ∀ {cs : List (String × String)} {d d' : Disk} {boxes : List Container},
      (∀ e ∈ cs, (place? e.2).isSome) → d.Sound → d.Keyed → setUpAll s probe cs d = (.ok boxes, d') →
      d'.Keyed ∧ ∀ c ∈ boxes, c.gate.archived = c.countArchived d % 2 ^ 64
  | [], d, d', boxes, _, _, hk, h => by
    simp only [setUpAll, Prod.mk.injEq, Except.ok.injEq] at h
    obtain ⟨rfl, rfl⟩ := h
    exact ⟨hk, by simp⟩
  | (name, root) :: rest, d, d', boxes, hplace, hs, hk, h => by
    obtain ⟨p, hp⟩ := Option.isSome_iff_exists.1 (hplace _ List.mem_cons_self)
    unfold setUpAll at h
    rcases hset : Container.setUp s probe d name root with ⟨_ | c, d1⟩ <;> rw [hset] at h
    · cases h
    dsimp only at h
    obtain ⟨-, hroot, -, -, -, hs1, hg1, -⟩ := Container.setUp_ok hp hs hset
    obtain ⟨hk1, hgate⟩ := setUp_tally hk hset
    rcases hall : setUpAll s probe rest d1 with ⟨_ | cs, d2⟩ <;> rw [hall] at h
    · cases h
    simp only [Prod.mk.injEq, Except.ok.injEq] at h
    obtain ⟨rfl, rfl⟩ := h
    have hrest := setUpAll_ok (fun e he => hplace e (List.mem_cons_of_mem _ he)) hs1 hall
    obtain ⟨hk2, hgates⟩ :=
      setUpAll_tally (fun e he => hplace e (List.mem_cons_of_mem _ he)) hs1 hk1 hall
    refine ⟨hk2, fun x hx => ?_⟩
    rcases List.mem_cons.1 hx with rfl | hx
    · rw [hgate, countArchived_of_grows hs hk hs1 hk1 hg1 (hroot ▸ hp)]
    · -- a later container counted on the disk the first one left, which only grew
      have hxroot : (place? x.root).isSome := by
        have : (x.name, x.root) ∈ rest := hrest.1 ▸ List.mem_map.2 ⟨x, hx, rfl⟩
        exact hplace _ (List.mem_cons_of_mem _ this)
      obtain ⟨px, hpx⟩ := Option.isSome_iff_exists.1 hxroot
      rw [hgates x hx, countArchived_of_grows hs hk hs1 hk1 hg1 hpx]

end Container

end ClaimStore
