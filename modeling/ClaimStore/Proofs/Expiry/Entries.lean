import ClaimStore.Proofs.Disk.Operations
import ClaimStore.Expiry
import Mathlib.Data.List.Nodup
/-!
# Archive entries and the scan of archive directories

An expiration pass learns its files from a scan: for each section, the regular files of the
section's archive directory, each remembered as an `Archive.Entry` by its path relative to the
container's root. Deleting an entry deletes the file at `join root relative`. This module shows
that this is the file that was scanned (`Archive.Entry.path_create`: relative to the root, the
path `<root>/<section>/archive/<name>` is `<section>/archive/<name>`, whatever the root's text),
and says which files a scan finds (`Sweep.mem_scan`, `Sweep.scan_of_node?`).

The first part is about texts: joining a plain name to a path keeps the path's start and the
segments that stand for something, and stripping a base from a path skips the base's
components.
-/

set_option autoImplicit false

namespace ClaimStore.Path

theorem splitOn_append_name (V : List Char) {n : String} (hn : Plain n) :
    ((V ++ '/' :: n.toList).splitOn '/').map String.ofList =
      (V.splitOn '/').map String.ofList ++ [n] := by
  simp [List.splitOn_append_cons_self, hn.splitOn]

/-- Splitting a text with a slash and a plain name appended: the same start, the same
segments, and the name. -/
theorem split_append_name {b t n : String} (hb : b ≠ "") (hn : Plain n)
    (ht : t.toList = b.toList ++ '/' :: n.toList) :
    split t = ⟨(split b).root, (split b).here, (split b).segments ++ [n]⟩ := by
  have hcs : b.toList ≠ [] := by simpa using hb
  unfold split
  rw [ht]
  generalize b.toList = cs at hcs ⊢
  obtain ⟨x, xs, rfl⟩ := List.exists_cons_of_ne_nil hcs
  have hhere : ((x :: xs ++ '/' :: n.toList) == ['.'] ||
      List.take 2 (x :: xs ++ '/' :: n.toList) == ['.', '/']) =
      ((x :: xs) == ['.'] || List.take 2 (x :: xs) == ['.', '/']) := by
    rcases xs with _ | ⟨y, ys⟩
    · by_cases hx : x = '.' <;> simp [hx]
    · simp
  simp only [List.cons_append, List.head?_cons] at hhere ⊢
  simp only [hhere]
  congr 1
  split <;> rename_i hc
  · simp only [hc, if_true, List.drop_one, List.tail_cons]
    exact splitOn_append_name xs hn
  · simp only [hc, if_false, Bool.false_eq_true]
    rw [← List.cons_append, splitOn_append_name _ hn]


theorem segments_eq (s : String) : (split s).segments =
    ((if (split s).root || (split s).here then s.toList.drop 1 else s.toList).splitOn '/').map
      String.ofList := rfl

/-- Splitting a text that ends in a slash, with a plain name appended: the same start, the
segments without the empty one the slash ended, and the name. -/
theorem split_slash_name {b t n : String} {B : List Char} (hn : Plain n)
    (hb : b.toList = B ++ ['/']) (ht : t.toList = B ++ '/' :: n.toList) :
    ∃ S, split t = ⟨(split b).root, (split b).here, S ++ [n]⟩ ∧
      S.filter real = (split b).segments.filter real := by
  rcases B with _ | ⟨x, xs⟩
  · refine ⟨[], ?_, by simp [split, hb, real]⟩
    simp [split, ht, hb, hn.splitOn]
  · -- both texts start alike
    have hroot : (split t).root = (split b).root := by simp [split, ht, hb]
    have hhere : (split t).here = (split b).here := by
      rcases xs with _ | ⟨y, ys⟩ <;> simp [split, ht, hb]
    have hsegs : ∃ S, (split t).segments = S ++ [n] ∧
        S.filter real = (split b).segments.filter real := by
      rw [segments_eq, segments_eq b, hroot, hhere, ht, hb]
      cases (split b).root || (split b).here
      · refine ⟨((x :: xs).splitOn '/').map String.ofList, ?_, ?_⟩
        · simp only [Bool.false_eq_true, if_false]
          rw [splitOn_append_name _ hn]
        · simp only [Bool.false_eq_true, if_false]
          rw [List.splitOn_append_cons_self]
          simp [List.filter_append, real]
      · refine ⟨(xs.splitOn '/').map String.ofList, ?_, ?_⟩
        · simp only [if_true, List.cons_append, List.drop_one, List.tail_cons]
          rw [splitOn_append_name xs hn]
        · simp only [if_true, List.cons_append, List.drop_one, List.tail_cons]
          rw [List.splitOn_append_cons_self]
          simp [List.filter_append, real]
    obtain ⟨S, h1, h2⟩ := hsegs
    exact ⟨S, by rw [← hroot, ← hhere, ← h1], h2⟩

theorem split_join {b n : String} (hb : b ≠ "") (hn : Plain n) :
    ∃ S, split (join b n) = ⟨(split b).root, (split b).here, S ++ [n]⟩ ∧
      S.filter real = (split b).segments.filter real := by
  obtain ⟨B, hj, hB⟩ := join_toList hb hn
  rcases hB with ⟨hB, -⟩ | hB
  · exact ⟨_, split_append_name hb hn (by rw [hj, hB]), rfl⟩
  · exact split_slash_name hn hB hj

theorem splitOn_cons_of_ne {x : Char} (hx : x ≠ '/') (xs : List Char) :
    ∃ w ws, (x :: xs).splitOn '/' = (x :: w) :: ws ∧ (w = [] → xs = [] ∨ xs.head? = some '/') := by
  obtain ⟨w, ws, hw⟩ := List.exists_cons_of_ne_nil (List.splitOnP_ne_nil (· == '/') xs)
  refine ⟨w, ws, ?_, ?_⟩
  · rw [List.splitOn_eq_splitOnP, List.splitOnP_cons_eq_if_modifyHead, hw]
    simp [hx]
  · rintro rfl
    rcases xs with _ | ⟨y, ys⟩
    · exact .inl rfl
    · refine .inr ?_
      by_cases hy : y = '/'
      · simp [hy]
      · rw [List.splitOnP_cons_eq_if_modifyHead] at hw
        obtain ⟨v, vs, hv⟩ := List.exists_cons_of_ne_nil (List.splitOnP_ne_nil (· == '/') ys)
        simp [hy, hv] at hw

/-- A path that is not empty has components. -/
theorem pieces_ne_nil {b : String} (hb : b ≠ "") : (split b).pieces ≠ [] := by
  have hcs : b.toList ≠ [] := by simpa using hb
  obtain ⟨x, xs, hx⟩ := List.exists_cons_of_ne_nil hcs
  cases hr : (split b).root
  · cases hh : (split b).here
    · -- a path that starts neither at the root nor with `.` starts with a name
      have hx' : x ≠ '/' := by
        intro h
        simp [split, hx, h] at hr
      have hdot : ¬(x :: xs = ['.'] ∨ List.take 2 (x :: xs) = ['.', '/']) := by
        intro h
        simp [split, hx, hx'] at hh
        rcases h with h | h <;> simp_all
      obtain ⟨w, ws, hw, hw0⟩ := splitOn_cons_of_ne hx' xs
      have hsegs : (split b).segments = String.ofList (x :: w) :: ws.map String.ofList := by
        rw [segments_eq, hr, hh, hx]
        simp only [Bool.or_false, Bool.false_eq_true, if_false, hw, List.map_cons]
      have hreal : real (String.ofList (x :: w)) = true := by
        simp only [real, Bool.and_eq_true, bne_iff_ne, ne_eq]
        refine ⟨fun h => by simpa using congrArg String.toList h, fun h => ?_⟩
        obtain ⟨rfl, rfl⟩ : x = '.' ∧ w = [] := by simpa using congrArg String.toList h
        rcases hw0 rfl with rfl | hxs
        · exact hdot (.inl rfl)
        · rcases xs with _ | ⟨y, ys⟩
          · simp at hxs
          · obtain rfl : y = '/' := by simpa using hxs
            exact hdot (.inr rfl)
      simp only [Split.pieces, hsegs, List.filter_cons, hreal, if_true, List.map_cons]
      simp
    · simp [Split.pieces, Split.startPieces, hh]
  · simp [Split.pieces, Split.startPieces, hr]
/-- Skipping as many segments that stand for something as a list has skips that list and at
most some segments that stand for nothing. -/
theorem afterReal_append (S T : List String) :
    ∃ U, (∀ u ∈ U, real u = false) ∧ afterReal (S.filter real).length (S ++ T) = U ++ T := by
  induction S with
  | nil => exact ⟨[], by simp, by simp [afterReal]⟩
  | cons x S ih =>
    obtain ⟨U, hU, hafter⟩ := ih
    by_cases hx : real x = true
    · refine ⟨U, hU, ?_⟩
      simp only [List.filter_cons, hx, if_true, List.length_cons, List.cons_append]
      simpa [afterReal, hx] using hafter
    · have hx' : real x = false := by simpa using hx
      rcases hm : (S.filter real).length with _ | m
      · -- nothing in `S` stands for something: it is all kept
        refine ⟨x :: S, ?_, ?_⟩
        · have hS := List.filter_eq_nil_iff.1 (List.length_eq_zero_iff.1 hm)
          simpa [hx'] using hS
        · simp [hx', hm, afterReal]
      · rw [hm] at hafter
        refine ⟨U, hU, ?_⟩
        simpa [hx', hm, afterReal] using hafter

theorem trimStart_append {U T : List String} (hU : ∀ u ∈ U, real u = false)
    (hT : ∀ x ∈ T, real x = true) : trimStart (U ++ T) = T := by
  have hdrop : U.dropWhile (!real ·) = [] := by
    induction U with
    | nil => rfl
    | cons u U ih =>
      rw [List.dropWhile_cons_of_pos (by simp [hU u List.mem_cons_self])]
      exact ih fun v hv => hU v (List.mem_cons_of_mem u hv)
  unfold trimStart
  rw [List.dropWhile_append, hdrop]
  rcases T with _ | ⟨x, T⟩
  · rfl
  · simp [hT x List.mem_cons_self]

theorem trimEnd_of_real {T : List String} (hT : ∀ x ∈ T, real x = true) : trimEnd T = T := by
  rcases List.eq_nil_or_concat T with rfl | ⟨T', x, rfl⟩
  · rfl
  · rw [List.concat_eq_append]
    exact trimEnd_append_real (hT x (by simp))

theorem stripPrefix?_of_split {t b : String} (hb : b ≠ "") {S T : List String}
    (ht : split t = ⟨(split b).root, (split b).here, S ++ T⟩)
    (hS : S.filter real = (split b).segments.filter real) (hT : ∀ x ∈ T, real x = true) :
    stripPrefix? t b = some ("/".intercalate T) := by
  have hTf : T.filter real = T := List.filter_eq_self.2 hT
  have hsegs : (split t).segments = S ++ T := by rw [ht]
  have hstart : (split t).startPieces = (split b).startPieces := by
    rw [ht]
    rfl
  have hpieces : (split t).pieces = (split b).pieces ++ T.map Piece.ofSegment := by
    simp [Split.pieces, hstart, hsegs, List.filter_append, hS, hTf]
  have hlen : (split b).pieces.length - (split t).startPieces.length = (S.filter real).length := by
    simp [Split.pieces, hstart, hS]
  obtain ⟨U, hU, hafter⟩ := afterReal_append S T
  have hne : (split b).pieces.isEmpty = false := by simpa using pieces_ne_nil hb
  unfold stripPrefix?
  simp only [hpieces, List.isPrefixOf_iff_prefix.2 (List.prefix_append _ _), if_true, hne,
    Bool.false_eq_true, if_false, hlen, hsegs, hafter, trimStart_append hU hT, trimEnd_of_real hT]

theorem split_join_join {b m n : String} (hb : b ≠ "") (hm : Plain m) (hn : Plain n) :
    split (join (join b m) n) =
      ⟨(split (join b m)).root, (split (join b m)).here, (split (join b m)).segments ++ [n]⟩ := by
  have hbm := join_ne_empty hb hm
  obtain ⟨B, hj, hB⟩ := join_toList hbm hn
  refine split_append_name hbm hn ?_
  rcases hB with ⟨hB, -⟩ | hB
  · rw [hj, hB]
  · have := (endsWith_slash_iff _).2 ⟨B, hB⟩
    rw [join_endsWith hb hm] at this
    exact absurd this (by simp)

theorem Plain.not_startsWith_append {n : String} (h : Plain n) (x : String) :
    (n ++ x).startsWith "/" = false := by
  rw [String.startsWith_string_eq_false_iff]
  rintro ⟨t, ht⟩
  obtain ⟨c, cs, hc⟩ := List.exists_cons_of_ne_nil (by simpa using h.1 : n.toList ≠ [])
  have : '/' = c := by simp [hc] at ht; exact ht.1
  exact h.2.2.2 (by rw [hc, this]; simp)

theorem join_join {b m : String} (hb : b ≠ "") (hm : Plain m) {x : String}
    (hx : x.startsWith "/" = false) : join (join b m) x = join b (m ++ "/" ++ x) := by
  have hbm : (join b m).isEmpty = false := by simpa using join_ne_empty hb hm
  have he : b.isEmpty = false := by simpa using hb
  rw [join, hx, join_endsWith hb hm, hbm]
  simp only [Bool.false_eq_true, if_false, Bool.or_false, join, hm.not_startsWith,
    String.append_assoc, hm.not_startsWith_append, he, Bool.false_or]
  split <;> simp [String.append_assoc]

theorem stripPrefix?_join_join_join {r s a n : String} (hr : r ≠ "") (hs : Plain s) (ha : Plain a)
    (hn : Plain n) :
    stripPrefix? (join (join (join r s) a) n) r = some (s ++ "/" ++ a ++ "/" ++ n) := by
  obtain ⟨S, hsplit, hS⟩ := split_join hr hs
  have h3 : split (join (join (join r s) a) n) =
      ⟨(split r).root, (split r).here, S ++ [s, a, n]⟩ := by
    rw [split_join_join (join_ne_empty hr hs) ha hn, split_join_join hr hs ha, hsplit]
    simp
  rw [stripPrefix?_of_split hr h3 hS (by simp [hs.real, ha.real, hn.real])]
  simp [String.intercalate_cons_cons, String.append_assoc]

end ClaimStore.Path

namespace ClaimStore

open ClaimStore.FileSystem ClaimStore.Path

theorem Archive.Entry.path_create {r s a n : String} (hr : r ≠ "") (hs : Plain s) (ha : Plain a)
    (hn : Plain n) (size lm : Nat) :
    (Archive.Entry.create r (join (join (join r s) a) n) size lm).path =
      join (join (join r s) a) n := by
  have hx : (a ++ "/" ++ n).startsWith "/" = false := by
    rw [String.append_assoc]
    exact ha.not_startsWith_append _
  simp only [Archive.Entry.create, Archive.Entry.path, stripPrefix?_join_join_join hr hs ha hn,
    Option.getD_some]
  rw [join_join (join_ne_empty hr hs) ha hn.not_startsWith, join_join hr hs hx]
  simp [String.append_assoc]

namespace FileSystem.Disk

variable {d : Disk} {p : Place} {n : String} {m : Node}

theorem mem_nodes_of_children (h : (n, m) ∈ d.children p) : (p ++ [n], m) ∈ d.nodes := by
  unfold children at h
  rw [List.mem_mergeSort, List.mem_filterMap] at h
  obtain ⟨⟨q, m'⟩, hq, he⟩ := h
  dsimp only at he
  split at he
  · rename_i hcond
    obtain ⟨last, hlast, heq⟩ := Option.map_eq_some_iff.1 he
    cases heq
    simp only [Bool.and_eq_true, decide_eq_true_eq, List.isPrefixOf_iff_prefix] at hcond
    obtain ⟨⟨t, rfl⟩, hlen⟩ := And.symm hcond
    obtain ⟨x, rfl⟩ : ∃ x, t = [x] := by
      rcases t with _ | ⟨x, _ | ⟨y, t⟩⟩ <;> simp_all
    simp only [List.getLast?_append, List.getLast?_singleton, Option.some_or,
      Option.some.injEq] at hlast
    rw [← hlast]
    exact hq
  · cases he

theorem children_of_node? (h : d.node? (p ++ [n]) = some m) : (n, m) ∈ d.children p := by
  rw [node?_of_ne_nil _ (by simp)] at h
  obtain ⟨e, he, rfl⟩ := Option.map_eq_some_iff.1 h
  have hkey : e.1 = p ++ [n] := by simpa using List.find?_some he
  unfold children
  rw [List.mem_mergeSort, List.mem_filterMap]
  exact ⟨e, List.mem_of_find?_eq_some he, by simp [hkey]⟩

end FileSystem.Disk

namespace Container

variable {c : Container} {d : Disk}

theorem mem_archivedFiles {sec : String} {A : Place} (hA : place? (c.archiveDir sec) = some A)
    {path : String} {i : Nat} :
    (path, i) ∈ c.archivedFiles d sec ↔
      d.isDir A = true ∧ ∃ n, (n, .file i) ∈ d.children A ∧ path = join (c.archiveDir sec) n := by
  unfold archivedFiles
  simp only [hA]
  split
  · rename_i hdir
    simp only [List.mem_filterMap, hdir, true_and]
    constructor
    · rintro ⟨⟨n, node⟩, hn, hf⟩
      cases node with
      | dir => cases hf
      | file i' =>
        cases hf
        exact ⟨n, hn, rfl⟩
    · rintro ⟨n, hn, rfl⟩
      exact ⟨(n, .file i), hn, rfl⟩
  · rename_i hdir
    simp [hdir]

end Container

namespace Sweep

variable {s : Sweep} {root : Place}

theorem mem_scan (hroot : place? s.container.root = some root) {e : Archive.Entry} :
    e ∈ s.scan ↔ ∃ j < s.container.sections, ∃ n i,
      s.disk.isDir (root ++ [toString j, Archive.dirName]) = true ∧
      (n, .file i) ∈ s.disk.children (root ++ [toString j, Archive.dirName]) ∧
      e = Archive.Entry.create s.container.root (join (s.container.archiveDir (toString j)) n)
        (s.disk.bytes i).size (lastModTime s.disk (join (s.container.archiveDir (toString j)) n)) := by
  unfold scan
  simp only [List.mem_flatMap, Container.sectionNames, List.mem_map, List.mem_range]
  constructor
  · rintro ⟨_, ⟨j, hj, rfl⟩, ⟨path, i⟩, hpath, rfl⟩
    obtain ⟨hdir, n, hn, rfl⟩ :=
      (Container.mem_archivedFiles (Container.archiveDir_place hroot (plain_toString j))).1 hpath
    exact ⟨j, hj, n, i, hdir, hn, rfl⟩
  · rintro ⟨j, hj, n, i, hdir, hn, rfl⟩
    refine ⟨toString j, ⟨j, hj, rfl⟩, (join (s.container.archiveDir (toString j)) n, i), ?_, rfl⟩
    exact (Container.mem_archivedFiles (Container.archiveDir_place hroot (plain_toString j))).2
      ⟨hdir, n, hn, rfl⟩

theorem place?_entry (hroot : place? s.container.root = some root) (j : Nat) {n : String}
    (hn : Plain n) (size lm : Nat) :
    place? (Archive.Entry.create s.container.root (join (s.container.archiveDir (toString j)) n)
      size lm).path = some (root ++ [toString j, Archive.dirName, n]) := by
  have hpath := Archive.Entry.path_create (Container.root_ne_empty hroot) (plain_toString j)
    plain_dirName hn size lm
  have hp := place?_join (Container.archiveDir_place hroot (plain_toString j)) hn
  simp only [Container.archiveDir, Container.sectionPath] at hpath hp ⊢
  rw [hpath, hp, List.append_assoc]
  rfl

theorem scan_place (hroot : place? s.container.root = some root) (hs : s.disk.Sound)
    {e : Archive.Entry} (he : e ∈ s.scan) : ∃ j < s.container.sections, ∃ n i,
      place? e.path = some (root ++ [toString j, Archive.dirName, n]) ∧
      (root ++ [toString j, Archive.dirName, n], .file i) ∈ s.disk.nodes ∧
      e.size = (s.disk.bytes i).size ∧
      e.lastModified = lastModTime s.disk (join (s.container.archiveDir (toString j)) n) := by
  obtain ⟨j, hj, n, i, -, hn, rfl⟩ := (mem_scan hroot).1 he
  refine ⟨j, hj, n, i, place?_entry hroot j (hs.plain_of_children hn) _ _, ?_, rfl, rfl⟩
  simpa using Disk.mem_nodes_of_children hn

theorem scan_of_node? (hroot : place? s.container.root = some root) (hs : s.disk.Sound)
    {j : Nat} (hj : j < s.container.sections) {n : String} {i : Nat}
    (hq : s.disk.node? (root ++ [toString j, Archive.dirName, n]) = some (.file i)) :
    ∃ e ∈ s.scan, place? e.path = some (root ++ [toString j, Archive.dirName, n]) ∧
      e.size = (s.disk.bytes i).size ∧
      e.lastModified = lastModTime s.disk (join (s.container.archiveDir (toString j)) n) := by
  have hA : root ++ [toString j, Archive.dirName, n] =
      (root ++ [toString j, Archive.dirName]) ++ [n] := by simp
  have hdir : s.disk.isDir (root ++ [toString j, Archive.dirName]) = true := by
    have := hs.above _ _ hq (root ++ [toString j, Archive.dirName]).length (by simp)
    rw [hA, List.take_left] at this
    rw [Disk.isDir, this]
    rfl
  have hplain : Plain n := hs.plain _ _ hq n (by simp)
  rw [hA] at hq
  exact ⟨_, (mem_scan hroot).2 ⟨j, hj, n, i, hdir, Disk.children_of_node? hq, rfl⟩,
    place?_entry hroot j hplain _ _, rfl, rfl⟩

end Sweep

end ClaimStore
