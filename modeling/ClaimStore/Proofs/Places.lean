import ClaimStore.Container
/-!
# Places of joined paths

The repository builds every path of a claim by joining names to a container's root:
`<root>/<section>/<id>` and `<root>/<section>/archive/<id>`. For plain names (not empty, not
`.` or `..`, without a slash) joining goes one level down, whatever the root's text looks like:
the place of the joined path is the root's place with the name appended, the joined path's
file name is the name, and its parent is the path it was joined to, as text.

Main statements: `place?_join`, `fileName?_join`, `parent?_join_join`, and for containers
`Container.claimPath_place`, `Container.archivePath_place` and
`Container.pathFor?_claimPath`: archiving moves a claim's file to its archive location.
-/

set_option autoImplicit false

namespace ClaimStore.Path

/-- A name a path segment stands for as itself. -/
def Plain (n : String) : Prop := n ≠ "" ∧ n ≠ "." ∧ n ≠ ".." ∧ '/' ∉ n.toList

instance (n : String) : Decidable (Plain n) :=
  inferInstanceAs (Decidable (n ≠ "" ∧ n ≠ "." ∧ n ≠ ".." ∧ '/' ∉ n.toList))

theorem Plain.real {n : String} (h : Plain n) : real n = true := by
  simp only [Path.real, Bool.and_eq_true, bne_iff_ne, ne_eq]
  exact ⟨h.1, h.2.1⟩

theorem Plain.not_startsWith {n : String} (h : Plain n) : n.startsWith "/" = false := by
  rw [String.startsWith_string_eq_false_iff]
  rintro ⟨t, ht⟩
  exact h.2.2.2 (by rw [← ht]; simp)

theorem Plain.splitOn {n : String} (h : Plain n) : n.toList.splitOn '/' = [n.toList] :=
  List.splitOn_eq_singleton h.2.2.2

theorem plain_of_chars {n : String} (h0 : n ≠ "") (hdot : ∃ c ∈ n.toList, c ≠ '.')
    (hs : '/' ∉ n.toList) : Plain n := by
  obtain ⟨c, hc, hne⟩ := hdot
  refine ⟨h0, ?_, ?_, hs⟩
  · rintro rfl; simp at hc; exact hne hc
  · rintro rfl; simp at hc; exact hne hc

theorem isDigit_of_mem_toString {k : Nat} {c : Char} (hc : c ∈ (toString k).toList) :
    c.isDigit = true := by
  rw [Nat.toString_eq_ofList_toDigits, String.toList_ofList] at hc
  exact Nat.isDigit_of_mem_toDigits (by decide) (by decide) hc

theorem plain_toString (k : Nat) : Plain (toString k) := by
  have hne : (toString k).toList ≠ [] := by
    rw [Nat.toString_eq_ofList_toDigits, String.toList_ofList]
    exact Nat.toDigits_ne_nil
  obtain ⟨c, hc⟩ := List.exists_mem_of_ne_nil _ hne
  refine plain_of_chars (fun h => hne (by rw [h]; rfl)) ⟨c, hc, ?_⟩ ?_
  · rintro rfl; exact absurd (isDigit_of_mem_toString hc) (by decide)
  · intro h; exact absurd (isDigit_of_mem_toString h) (by decide)

theorem toString_ne_dirName (k : Nat) : toString k ≠ Archive.dirName := by
  intro h
  exact absurd (isDigit_of_mem_toString (k := k) (c := 'a') (by rw [h]; decide)) (by decide)

theorem plain_formatId (t i : Nat) : Plain (Claim.formatId t i) := by
  have ht := plain_toString t
  have hi := plain_toString i
  refine plain_of_chars (by simp [Claim.formatId]) ⟨'-', by simp [Claim.formatId], by decide⟩ ?_
  simp only [Claim.formatId, String.toList_append, List.mem_append]
  rintro ((h | h) | h)
  · exact ht.2.2.2 h
  · exact absurd h (by decide)
  · exact hi.2.2.2 h

theorem plain_dirName : Plain Archive.dirName := by decide

theorem formatId_ne_dirName (t i : Nat) : Claim.formatId t i ≠ Archive.dirName := by
  intro h
  have : '-' ∈ (Claim.formatId t i).toList := by simp [Claim.formatId]
  rw [h] at this
  exact absurd this (by decide)

theorem toString_inj {n m : Nat} (h : toString n = toString m) : n = m := by
  have hd : Nat.toDigits 10 n = Nat.toDigits 10 m := by
    simpa [Nat.toString_eq_ofList_toDigits] using congrArg String.toList h
  calc n = Nat.ofDigitChars 10 (Nat.toDigits 10 n) 0 := Nat.ofDigitChars_ten_toDigits.symm
    _ = Nat.ofDigitChars 10 (Nat.toDigits 10 m) 0 := by rw [hd]
    _ = m := Nat.ofDigitChars_ten_toDigits

theorem append_cons_inj_of_not_mem {α : Type} {a : α} :
    ∀ {x z y w : List α}, a ∉ x → a ∉ z → x ++ a :: y = z ++ a :: w → x = z ∧ y = w
  | [], [], _, _, _, _, h => ⟨rfl, (List.cons.inj h).2⟩
  | [], _ :: _, _, _, _, hz, h => absurd ((List.cons.inj h).1 ▸ List.mem_cons_self) hz
  | _ :: _, [], _, _, hx, _, h => absurd ((List.cons.inj h).1 ▸ List.mem_cons_self) hx
  | _ :: _, _ :: _, _, _, hx, hz, h => by
    obtain ⟨rfl, h'⟩ := List.cons.inj h
    obtain ⟨rfl, rfl⟩ := append_cons_inj_of_not_mem (fun hm => hx (List.mem_cons_of_mem _ hm))
      (fun hm => hz (List.mem_cons_of_mem _ hm)) h'
    exact ⟨rfl, rfl⟩

theorem formatId_inj {t t' i i' : Nat} (h : Claim.formatId t i = Claim.formatId t' i') :
    t = t' ∧ i = i' := by
  have hl : (toString t).toList ++ '-' :: (toString i).toList =
      (toString t').toList ++ '-' :: (toString i').toList := by
    simpa [Claim.formatId] using congrArg String.toList h
  have hdash : ∀ k : Nat, '-' ∉ (toString k).toList := fun k hm =>
    absurd (isDigit_of_mem_toString hm) (by decide)
  obtain ⟨h1, h2⟩ := append_cons_inj_of_not_mem (hdash t) (hdash t') hl
  exact ⟨toString_inj (String.toList_inj.1 h1), toString_inj (String.toList_inj.1 h2)⟩

theorem endsWith_slash_iff (b : String) : b.endsWith "/" = true ↔ ∃ B, b.toList = B ++ ['/'] := by
  rw [← String.endsWith_toSlice, String.Slice.endsWith_string_iff]
  simp [List.IsSuffix, eq_comm]

theorem join_toList {b n : String} (hb : b ≠ "") (hn : Plain n) :
    ∃ B, (join b n).toList = B ++ '/' :: n.toList ∧
      (b.toList = B ∧ b.endsWith "/" = false ∨ b.toList = B ++ ['/']) := by
  have he : b.isEmpty = false := by simpa using hb
  by_cases hs : b.endsWith "/" = true
  · obtain ⟨B, hB⟩ := (endsWith_slash_iff b).1 hs
    refine ⟨B, ?_, .inr hB⟩
    simp [join, hn.not_startsWith, he, hs, hB]
  · refine ⟨b.toList, ?_, .inl ⟨rfl, by simpa using hs⟩⟩
    simp [join, hn.not_startsWith, he, hs]


theorem lead_append_intercalate (u : String) :
    (split u).lead ++ "/".intercalate (split u).segments = u := by
  apply String.toList_injective
  have hid : String.toList ∘ String.ofList = id := funext fun _ => String.toList_ofList
  simp only [split, Split.lead, String.toList_append, String.toList_intercalate, List.map_map, hid,
    List.map_id]
  have hs : "/".toList = ['/'] := rfl
  have hd : ".".toList = ['.'] := rfl
  rw [hs, List.intercalate_splitOn]
  by_cases h1 : u.toList.head? = some '/'
  · obtain ⟨cs, hcs⟩ : ∃ cs, u.toList = '/' :: cs := by
      rcases hu : u.toList with _ | ⟨c, cs⟩ <;> simp_all
    simp [hcs]
  · by_cases h2 : (u.toList == ['.'] || List.take 2 u.toList == ['.', '/']) = true
    · obtain ⟨cs, hcs⟩ : ∃ cs, u.toList = '.' :: cs := by
        rcases hu : u.toList with _ | ⟨c, _ | ⟨d, cs⟩⟩ <;> simp_all
      have h2' : cs = [] ∨ List.take 1 cs = ['/'] := by simpa [hcs] using h2
      simp [hcs, h2']
    · simp [h1, h2]

theorem trimEnd_append_real {segs : List String} {x : String} (hx : real x = true) :
    trimEnd (segs ++ [x]) = segs ++ [x] := by
  simp [trimEnd, hx]

theorem split_append_plain {u t n : String} (hu : 2 ≤ u.toList.length)
    (ht : t.toList = u.toList ++ '/' :: n.toList) (hn : Plain n) :
    split t = ⟨(split u).root, (split u).here, (split u).segments ++ [n]⟩ := by
  obtain ⟨c, d, U, hU⟩ : ∃ c d U, u.toList = c :: d :: U := by
    rcases hl : u.toList with _ | ⟨c, _ | ⟨d, U⟩⟩ <;> simp_all
  have hsplit : ∀ V : List Char, ((V ++ '/' :: n.toList).splitOn '/').map String.ofList =
      (V.splitOn '/').map String.ofList ++ [n] := by
    intro V
    simp [List.splitOn_append_cons_self, hn.splitOn]
  have h1 : ∀ X : List Char, (c :: d :: X == ['.']) = false := by intro X; simp
  have h2 : ∀ X : List Char, List.take 2 (c :: d :: X) = [c, d] := fun _ => rfl
  simp only [split, ht, hU, List.cons_append, List.head?_cons, h1, h2, Bool.false_or]
  congr 1
  by_cases hcond : (some c == some '/' || !some c == some '/' && [c, d] == ['.', '/']) = true
  · rw [if_pos hcond, if_pos hcond, List.drop_one, List.drop_one, List.tail_cons, List.tail_cons,
      ← List.cons_append, hsplit]
  · rw [if_neg hcond, if_neg hcond, ← List.cons_append, ← List.cons_append, hsplit]

theorem segments_join {b n : String} (hb : b ≠ "") (hn : Plain n) :
    ∃ segs, (split (join b n)).segments = segs ++ [n] := by
  obtain ⟨B, hj, -⟩ := join_toList hb hn
  have hlast : ∀ V : List Char, ((V ++ '/' :: n.toList).splitOn '/').map String.ofList =
      (V.splitOn '/').map String.ofList ++ [n] := by
    intro V
    simp [List.splitOn_append_cons_self, hn.splitOn]
  simp only [split, hj]
  split
  · rcases B with _ | ⟨x, B⟩
    · exact ⟨[], by simp [hn.splitOn]⟩
    · exact ⟨_, by rw [List.cons_append, List.drop_one, List.tail_cons, hlast]⟩
  · exact ⟨_, hlast B⟩

theorem fileName?_join {b n : String} (hb : b ≠ "") (hn : Plain n) :
    fileName? (join b n) = some n := by
  obtain ⟨segs, hs⟩ := segments_join hb hn
  simp [fileName?, hs, trimEnd_append_real hn.real, hn.2.2.1]

theorem join_ne_empty {b n : String} (hb : b ≠ "") (hn : Plain n) : join b n ≠ "" := by
  obtain ⟨B, hj, -⟩ := join_toList hb hn
  intro h
  simp [h] at hj

theorem join_endsWith {b n : String} (hb : b ≠ "") (hn : Plain n) :
    (join b n).endsWith "/" = false := by
  obtain ⟨B, hj, -⟩ := join_toList hb hn
  rw [Bool.eq_false_iff]
  intro h
  obtain ⟨B', hB'⟩ := (endsWith_slash_iff _).1 h
  rw [hj] at hB'
  obtain ⟨N, x, hx⟩ : ∃ N x, n.toList = N ++ [x] := by
    rcases List.eq_nil_or_concat n.toList with h0 | ⟨N, x, hx⟩
    · exact absurd (String.toList_eq_nil_iff.1 h0) hn.1
    · exact ⟨N, x, by simpa using hx⟩
  have hl := congrArg List.getLast? hB'
  rw [hx, ← List.cons_append, ← List.append_assoc, List.getLast?_concat, List.getLast?_concat,
    Option.some_inj] at hl
  exact hn.2.2.2 (by rw [hx, hl]; simp)

/-- The parent of a name joined to a path ending in a plain name is that path, as text. -/
theorem parent?_join_join {b m n : String} (hb : b ≠ "") (hm : Plain m) (hn : Plain n) :
    parent? (join (join b m) n) = some (join b m) := by
  generalize hu : join b m = u
  have hu0 : u ≠ "" := hu ▸ join_ne_empty hb hm
  have hlen : 2 ≤ u.toList.length := by
    obtain ⟨B, hj, -⟩ := join_toList hb hm
    have hm0 : 0 < m.toList.length := by
      have := hm.1
      rcases hml : m.toList with _ | ⟨x, M⟩
      · simp_all
      · simp
    rw [← hu, hj]
    simp
    omega
  obtain ⟨B, hj, hB⟩ := join_toList hu0 hn
  have hB : u.toList = B := by
    rcases hB with ⟨h, -⟩ | h
    · exact h
    · have := (endsWith_slash_iff u).2 ⟨B, h⟩
      rw [← hu, join_endsWith hb hm] at this
      exact absurd this (by simp)
  have hsplit := split_append_plain hlen (by rw [hj, hB]) hn
  obtain ⟨segs, hsegs⟩ := segments_join hb hm
  rw [hu] at hsegs
  unfold parent?
  rw [hsplit]
  simp only [trimEnd_append_real hn.real]
  split
  · rename_i h
    simp at h
  · rw [List.dropLast_concat, hsegs, trimEnd_append_real hm.real, ← hsegs]
    exact congrArg some (lead_append_intercalate u)

end ClaimStore.Path

namespace ClaimStore.FileSystem

open ClaimStore.Path

/-- Where the segments of a path lead: from the root after a leading empty segment, and from
the working directory otherwise. -/
def walk : List String → Place
  | "" :: rest => rest.foldl stepPlace []
  | segs => segs.foldl stepPlace workPlace

theorem walk_cons_of_ne {s : String} (hs : s ≠ "") (rest : List String) :
    walk (s :: rest) = rest.foldl stepPlace (stepPlace workPlace s) := by
  unfold walk
  split
  · rename_i h
    simp only [List.cons.injEq] at h
    exact absurd h.1 hs
  · rfl

theorem place?_eq_walk {t : String} (ht : t ≠ "") :
    place? t = some (walk ((t.toList.splitOn '/').map String.ofList)) := by
  have he : t.isEmpty = false := by simpa using ht
  unfold place?
  rw [he, if_neg (by simp)]
  split
  · rename_i rest h
    rw [h]
    rfl
  · rename_i h
    generalize (t.toList.splitOn '/').map String.ofList = segs at h ⊢
    cases segs with
    | nil => rfl
    | cons s rest =>
      have hs : s ≠ "" := fun hs => h rest (by rw [hs])
      rw [walk_cons_of_ne hs]
      rfl

theorem stepPlace_empty (p : Place) : stepPlace p "" = p := by simp [stepPlace]

theorem stepPlace_plain {n : String} (hn : Plain n) (p : Place) : stepPlace p n = p ++ [n] := by
  simp [stepPlace, hn.1, hn.2.1, hn.2.2.1]

theorem walk_append_plain {segs : List String} (hne : segs ≠ []) {n : String} (hn : Plain n) :
    walk (segs ++ [n]) = walk segs ++ [n] := by
  obtain ⟨s, rest, rfl⟩ := List.exists_cons_of_ne_nil hne
  by_cases hs : s = ""
  · subst hs
    simp [walk, List.foldl_append, stepPlace_plain hn]
  · rw [List.cons_append, walk_cons_of_ne hs, walk_cons_of_ne hs, List.foldl_append]
    simp [stepPlace_plain hn]

theorem walk_append_empty {segs : List String} (hne : segs ≠ []) :
    walk (segs ++ [""]) = walk segs := by
  obtain ⟨s, rest, rfl⟩ := List.exists_cons_of_ne_nil hne
  by_cases hs : s = ""
  · subst hs
    simp [walk, List.foldl_append, stepPlace_empty]
  · rw [List.cons_append, walk_cons_of_ne hs, walk_cons_of_ne hs, List.foldl_append]
    simp [stepPlace_empty]

theorem place?_join {b : String} {p : Place} (hb : place? b = some p) {n : String} (hn : Plain n) :
    place? (Path.join b n) = some (p ++ [n]) := by
  have hb0 : b ≠ "" := by rintro rfl; simp [place?] at hb
  obtain ⟨B, hj, hB⟩ := join_toList hb0 hn
  have hjn : Path.join b n ≠ "" := by
    intro h; have := congrArg String.toList h; simp [hj] at this
  rw [place?_eq_walk hb0] at hb
  rw [place?_eq_walk hjn, hj, List.splitOn_append_cons_self, hn.splitOn]
  rcases hB with ⟨hB, -⟩ | hB
  · rw [hB] at hb
    simp only [List.map_append, List.map_cons, List.map_nil, String.ofList_toList]
    rw [walk_append_plain (by simp) hn, ← Option.some_inj.1 hb]
  · rw [hB, List.splitOn_append_cons_self] at hb
    simp only [List.splitOn_nil, List.map_append, List.map_cons, List.map_nil,
      String.ofList_nil] at hb
    simp only [List.map_append, List.map_cons, List.map_nil, String.ofList_toList]
    rw [walk_append_empty (by simp)] at hb
    rw [walk_append_plain (by simp) hn, ← Option.some_inj.1 hb]

end ClaimStore.FileSystem

namespace ClaimStore

open ClaimStore.Claim ClaimStore.FileSystem ClaimStore.Path

/-- A claim whose section and id are plain names. -/
def Claim.Resource.Plain (r : Resource) : Prop := Path.Plain r.sectionName ∧ Path.Plain r.id

/-- Where a claim's file lies in a container whose root is at `root`. -/
def livePlace (root : Place) (r : Resource) : Place := root ++ [r.sectionName, r.id]

/-- Where a claim's file lies once archived. -/
def archivePlace (root : Place) (r : Resource) : Place :=
  root ++ [r.sectionName, Archive.dirName, r.id]

theorem plain_archivePlace_of_root {root : Place} (hroot : ∀ s ∈ root, Path.Plain s)
    {r : Resource} (hr : r.Plain) : ∀ s ∈ archivePlace root r, Path.Plain s := by
  intro s hs
  simp only [archivePlace, List.mem_append, List.mem_cons, List.not_mem_nil, or_false] at hs
  rcases hs with hs | rfl | rfl | rfl
  · exact hroot s hs
  · exact hr.1
  · exact plain_dirName
  · exact hr.2

namespace Container

variable {c : Container} {root : Place}

theorem root_ne_empty (hc : place? c.root = some root) : c.root ≠ "" := by
  rintro h
  simp [h, place?] at hc

theorem sectionPath_place (hc : place? c.root = some root) {s : String} (hs : Path.Plain s) :
    place? (c.sectionPath s) = some (root ++ [s]) :=
  place?_join hc hs

theorem archiveDir_place (hc : place? c.root = some root) {s : String} (hs : Path.Plain s) :
    place? (c.archiveDir s) = some (root ++ [s, Archive.dirName]) := by
  simpa [archiveDir] using place?_join (sectionPath_place hc hs) plain_dirName

theorem claimPath_place (hc : place? c.root = some root) {r : Resource} (hr : r.Plain) :
    place? (c.claimPath r) = some (livePlace root r) := by
  simpa [livePlace, claimPath] using place?_join (sectionPath_place hc hr.1) hr.2

theorem archivePath_place (hc : place? c.root = some root) {r : Resource} (hr : r.Plain) :
    place? (c.archivePath r) = some (archivePlace root r) := by
  simpa [archivePlace, archivePath] using place?_join (archiveDir_place hc hr.1) hr.2

theorem parent?_claimPath (hc : place? c.root = some root) {r : Resource} (hr : r.Plain) :
    Path.parent? (c.claimPath r) = some (c.sectionPath r.sectionName) :=
  parent?_join_join (root_ne_empty hc) hr.1 hr.2

theorem parent?_archivePath (hc : place? c.root = some root) {r : Resource} (hr : r.Plain) :
    Path.parent? (c.archivePath r) = some (c.archiveDir r.sectionName) :=
  parent?_join_join (join_ne_empty (root_ne_empty hc) hr.1) plain_dirName hr.2

theorem isArchived_claimPath (hc : place? c.root = some root) {r : Resource} (hr : r.Plain) :
    Archive.isArchived (c.claimPath r) = (r.sectionName == Archive.dirName) := by
  simp [Archive.isArchived, parent?_claimPath hc hr, sectionPath,
    fileName?_join (root_ne_empty hc) hr.1]

theorem pathFor?_claimPath (hc : place? c.root = some root) {r : Resource} (hr : r.Plain) :
    Archive.pathFor? (c.claimPath r) = some (c.archivePath r) := by
  have hname : fileName? (c.claimPath r) = some r.id :=
    fileName?_join (join_ne_empty (root_ne_empty hc) hr.1) hr.2
  simp [Archive.pathFor?, hname, parent?_claimPath hc hr, archivePath, archiveDir]

end Container

end ClaimStore
