import ClaimStore.Proofs.Repo.Runs
import ClaimStore.Proofs.Text.ByteOrder
import Mathlib.Data.String.Basic
import Mathlib.Data.List.TakeWhile
import Mathlib.Data.List.DropRight
/-!
# What resolution accepts

Settings resolve exactly when they are well formed (`Settings.WellFormed`): at least one
container; every container they map (a later entry of a name replacing an earlier one) has a
name with a character that is not blank and a path that is not empty; the counts are at least
one; every percentage, duration and size reads; the archive percentage is positive when
archiving is on; and the destruction interval is not zero.

`Settings.checks` lists the checks in the order resolution makes them, each as the issue it
raises or `none`, and resolution fails with the first issue of that list (`resolve_agrees`). The
proof follows resolution step by step, with one lemma about `Agrees` for each kind of step: a
guard, the containers' loop, a reading, the back-pressure default and the final value. On
success the cleanup frequency is raised to one second, the appendable size lowered to the
ceiling, the back-pressure ratio is the one written or two points above the archive ratio, and
the containers are the entries of the map, in increasing byte order of their names.

Main statement: `resolve_accepts_exactly_well_formed`.
-/

set_option autoImplicit false

namespace ClaimStore.Text

theorem trimChars_eq_nil_iff (cs : List Char) :
    trimChars cs = [] ↔ ∀ c ∈ cs, isBlank c = true := by
  rw [trimChars, List.reverse_eq_nil_iff, List.dropWhile_eq_nil_iff]
  simp only [List.mem_reverse]
  rw [← List.dropWhile_eq_nil_iff, List.dropWhile_idempotent, List.dropWhile_eq_nil_iff]

theorem trim_isEmpty_iff (s : String) :
    (trim s).isEmpty = true ↔ ∀ c ∈ s.toList, isBlank c = true := by
  rw [String.isEmpty_iff, trim, String.ofList_eq_empty_iff, trimChars_eq_nil_iff]

end ClaimStore.Text

namespace ClaimStore.Config

open ClaimStore.Text

/-! ## The containers as a map -/

/-- The entries `cs` map `name` to `root`: the last entry of that name has that root. -/
def Maps (cs : List (String × String)) (name root : String) : Prop :=
  ∃ pre post, cs = pre ++ (name, root) :: post ∧ ∀ e ∈ post, e.1 ≠ name

theorem not_maps_nil (name root : String) : ¬ Maps [] name root := by
  rintro ⟨pre, post, h, -⟩
  simp at h

theorem maps_cons {c : String × String} {cs : List (String × String)} {name root : String} :
    Maps (c :: cs) name root ↔ (c = (name, root) ∧ ∀ e ∈ cs, e.1 ≠ name) ∨ Maps cs name root := by
  constructor
  · rintro ⟨pre, post, h, hpost⟩
    cases pre with
    | nil =>
      obtain ⟨rfl, rfl⟩ := List.cons.inj h
      exact .inl ⟨rfl, hpost⟩
    | cons d pre =>
      obtain ⟨rfl, rfl⟩ := List.cons.inj h
      exact .inr ⟨pre, post, rfl, hpost⟩
  · rintro (⟨rfl, hcs⟩ | ⟨pre, post, rfl, hpost⟩)
    · exact ⟨[], cs, rfl, hcs⟩
    · exact ⟨c :: pre, post, rfl, hpost⟩

theorem maps_getLast {cs : List (String × String)} (h : cs ≠ []) :
    Maps cs (cs.getLast h).1 (cs.getLast h).2 :=
  ⟨cs.dropLast, [], (List.dropLast_append_getLast h).symm, by simp⟩

theorem mem_foldl_replace (cs acc : List (String × String)) (e : String × String) :
    e ∈ cs.foldl (fun acc c => acc.filter (·.1 != c.1) ++ [c]) acc ↔
      (e ∈ acc ∧ ∀ c ∈ cs, c.1 ≠ e.1) ∨ Maps cs e.1 e.2 := by
  induction cs generalizing acc with
  | nil => simp [not_maps_nil]
  | cons c cs ih =>
    rw [List.foldl_cons, ih, maps_cons]
    simp only [List.mem_append, List.mem_filter, List.mem_singleton, bne_iff_ne, ne_eq,
      List.forall_mem_cons]
    grind

theorem mem_orderContainers {cs : List (String × String)} {name root : String} :
    (name, root) ∈ orderContainers cs ↔ Maps cs name root := by
  rw [orderContainers, List.mem_mergeSort, mem_foldl_replace]
  simp

theorem orderContainers_eq_nil_iff (cs : List (String × String)) :
    orderContainers cs = [] ↔ cs = [] := by
  constructor
  · intro h
    by_contra hne
    have hmem := mem_orderContainers.2 (maps_getLast hne)
    rw [h] at hmem
    exact List.not_mem_nil hmem
  · rintro rfl
    simp [orderContainers]

theorem orderContainers_sorted (cs : List (String × String)) :
    (orderContainers cs).Pairwise fun a b => a.1 < b.1 := by
  have hle : (orderContainers cs).Pairwise fun a b => decide (a.1 ≤ b.1) = true :=
    List.pairwise_mergeSort
      (fun a b c hab hbc => by
        simp only [decide_eq_true_eq] at hab hbc ⊢
        exact le_trans hab hbc)
      (fun a b => by simpa using le_total a.1 b.1) _
  have hne : (orderContainers cs).Pairwise fun a b => a.1 ≠ b.1 :=
    List.pairwise_map.1 (orderContainers_nodup cs)
  exact (hle.and hne).imp fun h => lt_of_le_of_ne (of_decide_eq_true h.1) h.2

theorem orderContainers_byteOrder (cs : List (String × String)) :
    (orderContainers cs).Pairwise fun a b =>
      a.1.toByteArray.data.toList < b.1.toByteArray.data.toList :=
  (orderContainers_sorted cs).imp utf8_lt_iff.2

/-! ## The checks, in order -/

/-- The issue a container raises: a name with no character that is not blank, else an empty
path. -/
def containerIssue (e : String × String) : Option Issue :=
  if (trim e.1).isEmpty then some .blankContainerName
  else if e.2.isEmpty then some (.emptyContainerPath e.1)
  else none

/-- The issue a reading fails with. -/
def issueOf {α : Type} : Except Issue α → Option Issue
  | .error i => some i
  | .ok _ => none

/-- The issue `i` when the value read has the property `bad`; nothing when it is not read. -/
def refusedIf {α : Type} (x : Except Issue α) (bad : α → Prop) [DecidablePred bad]
    (i : Issue) : Option Issue :=
  match x with
  | .ok a => if bad a then some i else none
  | .error _ => none

/-- The checks of resolution in its order, each as the issue it raises or `none`. -/
def Settings.checks (s : Settings) : List (Option Issue) :=
  (if s.containers = [] then some .noContainers else none) ::
    ((orderContainers s.containers).map containerIssue ++
      [if s.sections = 0 then some .zeroSections else none,
       if s.maxPooled = 0 then some .zeroPooledClaims else none,
       if s.reclaimQueue = 0 then some .zeroReclaimQueue else none,
       issueOf (parsePercentage s.archivePercentage),
       refusedIf (parsePercentage s.archivePercentage)
         (fun r => s.archiveEnabled = true ∧ r ≤ 0.0) .zeroArchivePercentage,
       s.backpressurePercentage.elim none fun t => issueOf (parsePercentage t),
       issueOf (parseDuration s.retention),
       issueOf (parseDuration s.cleanupFrequency),
       issueOf (parseDataSize s.maxAppendable),
       issueOf (parseDuration s.destructionInterval),
       refusedIf (parseDuration s.destructionInterval) (· = 0) .zeroDestructionInterval,
       issueOf (parseDuration s.reclaimOfferTimeout)])

/-- Settings that resolve, said of the settings: the rules the checks enforce. -/
structure Settings.WellFormed (s : Settings) : Prop where
  containers : s.containers ≠ []
  named : ∀ name root, Maps s.containers name root →
    (∃ c ∈ name.toList, isBlank c = false) ∧ root ≠ ""
  sections : 1 ≤ s.sections
  pooled : 1 ≤ s.maxPooled
  reclaimQueue : 1 ≤ s.reclaimQueue
  archiveRead : ∃ r, parsePercentage s.archivePercentage = .ok r
  archivePositive : ∀ r, parsePercentage s.archivePercentage = .ok r →
    s.archiveEnabled = true → ¬ r ≤ 0.0
  backpressureRead : ∀ t, s.backpressurePercentage = some t → ∃ r, parsePercentage t = .ok r
  retentionRead : ∃ n, parseDuration s.retention = .ok n
  cleanupRead : ∃ n, parseDuration s.cleanupFrequency = .ok n
  appendableRead : ∃ n, parseDataSize s.maxAppendable = .ok n
  destructionRead : ∃ n, parseDuration s.destructionInterval = .ok n
  destructionNonzero : ∀ n, parseDuration s.destructionInterval = .ok n → n ≠ 0
  offerTimeoutRead : ∃ n, parseDuration s.reclaimOfferTimeout = .ok n

theorem containerIssue_eq_none (e : String × String) :
    containerIssue e = none ↔ (∃ c ∈ e.1.toList, isBlank c = false) ∧ e.2 ≠ "" := by
  by_cases hname : (trim e.1).isEmpty = true
  · have hblank := (trim_isEmpty_iff e.1).1 hname
    simp only [containerIssue, hname, if_true, reduceCtorEq, false_iff, not_and]
    rintro ⟨c, hc, hnot⟩
    simp [hblank c hc] at hnot
  · have hsome : ∃ c ∈ e.1.toList, isBlank c = false := by
      simpa using mt (trim_isEmpty_iff e.1).2 hname
    simp only [containerIssue, hname, if_false, Bool.false_eq_true]
    simp [hsome, String.isEmpty_iff]

theorem issueOf_eq_none {α : Type} (x : Except Issue α) : issueOf x = none ↔ ∃ a, x = .ok a := by
  cases x <;> simp [issueOf]

theorem refusedIf_eq_none {α : Type} (x : Except Issue α) (bad : α → Prop) [DecidablePred bad]
    (i : Issue) : refusedIf x bad i = none ↔ ∀ a, x = .ok a → ¬ bad a := by
  cases x <;> simp [refusedIf]

theorem elim_issueOf_eq_none {α β : Type} (o : Option α) (f : α → Except Issue β) :
    (o.elim none fun t => issueOf (f t)) = none ↔ ∀ t, o = some t → ∃ r, f t = .ok r := by
  cases o <;> simp [issueOf_eq_none]

theorem checks_pass_iff (s : Settings) : s.checks.findSome? id = none ↔ s.WellFormed := by
  simp only [List.findSome?_eq_none_iff, id, Settings.checks, List.forall_mem_cons,
    List.forall_mem_append, List.forall_mem_map, List.not_mem_nil, false_implies, implies_true,
    and_true, ite_eq_right_iff, reduceCtorEq, imp_false, not_and, issueOf_eq_none,
    refusedIf_eq_none, elim_issueOf_eq_none, containerIssue_eq_none, Prod.forall,
    mem_orderContainers]
  -- the counts are written `≠ 0` by the checks and `1 ≤` by the rules
  constructor
  · rintro ⟨h0, hnamed, h1, h2, h3, hread, hpos, hbp, hret, hcl, hap, hde, hnz, hoff⟩
    exact ⟨h0, hnamed, Nat.one_le_iff_ne_zero.2 h1, Nat.one_le_iff_ne_zero.2 h2,
      Nat.one_le_iff_ne_zero.2 h3, hread, hpos, hbp, hret, hcl, hap, hde, hnz, hoff⟩
  · rintro ⟨h0, hnamed, h1, h2, h3, hread, hpos, hbp, hret, hcl, hap, hde, hnz, hoff⟩
    exact ⟨h0, hnamed, Nat.one_le_iff_ne_zero.1 h1, Nat.one_le_iff_ne_zero.1 h2,
      Nat.one_le_iff_ne_zero.1 h3, hread, hpos, hbp, hret, hcl, hap, hde, hnz, hoff⟩

/-! ## Resolution follows the checks -/

theorem checkContainers_eq (cs : List (String × String)) :
    checkContainers cs = match cs.findSome? containerIssue with
      | some i => .error i
      | none => .ok () := by
  induction cs with
  | nil => rfl
  | cons e cs ih =>
    obtain ⟨name, root⟩ := e
    simp only [checkContainers, List.findSome?_cons, containerIssue]
    split_ifs <;> simp [ih]

/-- A computation agrees with a list of checks: it fails with the first issue of the list, and
when there is none, it gives a value with the property `q`. -/
structure Agrees {α : Type} (l : List (Option Issue)) (x : Except Issue α) (q : α → Prop) :
    Prop where
  fails : ∀ e, l.findSome? id = some e → x = .error e
  passes : l.findSome? id = none → ∃ r, x = .ok r ∧ q r

section Agrees

variable {α β : Type} {l : List (Option Issue)} {q : α → Prop}

theorem Agrees.congr {l' : List (Option Issue)} {x : Except Issue α}
    (hl : l.findSome? id = l'.findSome? id) (h : Agrees l' x q) : Agrees l x q :=
  ⟨fun e he => h.fails e (hl ▸ he), fun hn => h.passes (hl ▸ hn)⟩

theorem Agrees.none_cons {x : Except Issue α} (h : Agrees l x q) : Agrees (none :: l) x q :=
  h.congr (by simp)

theorem Agrees.some_cons {x : Except Issue α} {i : Issue} (hx : x = .error i) :
    Agrees (some i :: l) x q :=
  ⟨fun e he => by simp_all, fun hn => by simp at hn⟩

theorem Agrees.guard {c c' : Prop} [Decidable c] [Decidable c'] {i : Issue}
    {x k : Except Issue α} (hc : c' ↔ c) (hx : x = .error i) (hk : ¬ c → Agrees l k q) :
    Agrees ((if c then some i else none) :: l) (if c' then x else k) q := by
  by_cases h : c
  · rw [if_pos h, if_pos (hc.2 h)]
    exact Agrees.some_cons hx
  · rw [if_neg h, if_neg (mt hc.1 h)]
    exact (hk h).none_cons

theorem Agrees.bind {p : Except Issue β} {f : β → Except Issue α}
    (h : ∀ a, p = .ok a → Agrees l (f a) q) : Agrees (issueOf p :: l) (p >>= f) q := by
  cases p with
  | error i => exact Agrees.some_cons rfl
  | ok a => exact (h a rfl).none_cons

theorem Agrees.containers {cs : List (String × String)} {k : Except Issue α}
    (hk : cs.findSome? containerIssue = none → Agrees l k q) :
    Agrees (cs.map containerIssue ++ l) (checkContainers cs >>= fun _ => k) q := by
  have hfirst : (cs.map containerIssue ++ l).findSome? id =
      (cs.findSome? containerIssue).or (l.findSome? id) := by
    rw [List.findSome?_append, List.findSome?_map, Function.id_comp]
  rw [checkContainers_eq]
  cases h : cs.findSome? containerIssue with
  | some i =>
    refine ⟨fun e he => ?_, fun hn => ?_⟩
    · rw [hfirst, h, Option.some_or, Option.some.injEq] at he
      rw [← he]
      rfl
    · rw [hfirst, h, Option.some_or] at hn
      cases hn
  | none =>
    rw [h, Option.none_or] at hfirst
    exact (hk h).congr hfirst

theorem Agrees.option {o : Option String} {d : Float} {f : Float → Except Issue α}
    (h : ∀ b, o.elim (.ok d) parsePercentage = .ok b → Agrees l (f b) q) :
    Agrees ((o.elim none fun t => issueOf (parsePercentage t)) :: l)
      (match o with
        | some t => parsePercentage t >>= f
        | none => pure d >>= f) q := by
  cases o with
  | none => exact (h d rfl).none_cons
  | some t =>
    dsimp only [Option.elim] at h ⊢
    exact Agrees.bind h

theorem Agrees.result {r : α} (hr : q r) : Agrees [] (pure r) q :=
  ⟨fun e he => by simp at he, fun _ => ⟨r, rfl, hr⟩⟩

theorem Agrees.error_iff {x : Except Issue α} (h : Agrees l x q) (e : Issue) :
    x = .error e ↔ l.findSome? id = some e := by
  cases hfirst : l.findSome? id with
  | some e' =>
    rw [h.fails e' hfirst, Except.error.injEq, Option.some.injEq, eq_comm]
  | none =>
    obtain ⟨r, hr, -⟩ := h.passes hfirst
    rw [hr]
    simp

theorem Agrees.ok_iff {x : Except Issue α} (h : Agrees l x q) :
    (∃ r, x = .ok r) ↔ l.findSome? id = none := by
  cases hfirst : l.findSome? id with
  | some e =>
    rw [h.fails e hfirst]
    simp
  | none =>
    obtain ⟨r, hr, -⟩ := h.passes hfirst
    exact ⟨fun _ => rfl, fun _ => ⟨r, hr⟩⟩

theorem Agrees.of_ok {x : Except Issue α} (h : Agrees l x q) {r : α} (hr : x = .ok r) : q r := by
  cases hfirst : l.findSome? id with
  | some e =>
    rw [h.fails e hfirst] at hr
    cases hr
  | none =>
    obtain ⟨r', hr', hq⟩ := h.passes hfirst
    rw [hr', Except.ok.injEq] at hr
    exact hr ▸ hq

end Agrees

/-- What resolution makes of the settings where the rules speak of it: the containers in order,
the ratios read, and the cleanup frequency and appendable size kept within their bounds. -/
structure Settings.ResolvesTo (s : Settings) (r : Resolved) : Prop where
  containers : r.containers = orderContainers s.containers
  archiveRatio : parsePercentage s.archivePercentage = .ok r.maxArchiveRatio
  backpressureRatio : s.backpressurePercentage.elim (r.backpressureRatio = r.maxArchiveRatio + 0.02)
    fun t => parsePercentage t = .ok r.backpressureRatio
  cleanup : ∃ c, parseDuration s.cleanupFrequency = .ok c ∧ r.cleanupNanos = max c cleanupFloor
  appendable : ∃ a, parseDataSize s.maxAppendable = .ok a ∧
    r.maxAppendable = min a appendableCeiling

theorem backpressure_of_read {o : Option String} {d b : Float}
    (h : o.elim (.ok d) parsePercentage = .ok b) :
    o.elim (b = d) fun t => parsePercentage t = .ok b := by
  cases o with
  | none => exact (Except.ok.inj h).symm
  | some t =>
    dsimp only [Option.elim] at h ⊢
    exact h

/-- Resolution fails with the first issue of its checks, and otherwise resolves the settings. -/
theorem resolve_agrees (s : Settings) : Agrees s.checks s.resolve s.ResolvesTo := by
  unfold Settings.resolve Settings.checks
  dsimp only
  refine Agrees.guard (by simp [orderContainers_eq_nil_iff]) rfl fun hne => ?_
  refine Agrees.containers fun hcs => ?_
  refine Agrees.guard Iff.rfl rfl fun hsec => ?_
  refine Agrees.guard Iff.rfl rfl fun hpool => ?_
  refine Agrees.guard Iff.rfl rfl fun hqueue => ?_
  refine Agrees.bind fun m hm => ?_
  rw [hm]
  dsimp only [refusedIf]
  refine Agrees.guard (by simp) rfl fun hpos => ?_
  refine Agrees.option fun b hb => ?_
  refine Agrees.bind fun ret hret => ?_
  refine Agrees.bind fun cl hcl => ?_
  refine Agrees.bind fun ap hap => ?_
  refine Agrees.bind fun de hde => ?_
  rw [hde]
  refine Agrees.guard Iff.rfl rfl fun hzero => ?_
  refine Agrees.bind fun off hoff => ?_
  exact Agrees.result ⟨rfl, hm, backpressure_of_read hb, ⟨cl, hcl, rfl⟩, ⟨ap, hap, rfl⟩⟩

/-- Settings resolve exactly when they are well formed, and otherwise fail with the issue of the
first check that fails, in the order resolution makes them. The resolved settings keep the
cleanup frequency at one second or more and the appendable size at the ceiling or less, take the
back-pressure ratio written or else two points above the archive ratio, and list the containers
the settings map, in increasing byte order of their names. -/
theorem resolve_accepts_exactly_well_formed (s : Settings) :
    ((∃ r, s.resolve = .ok r) ↔ s.WellFormed) ∧
    (∀ e, s.resolve = .error e ↔ s.checks.findSome? id = some e) ∧
    ∀ r, s.resolve = .ok r →
      (∃ c, parseDuration s.cleanupFrequency = .ok c ∧ r.cleanupNanos = max c cleanupFloor) ∧
      (∃ a, parseDataSize s.maxAppendable = .ok a ∧ r.maxAppendable = min a appendableCeiling) ∧
      parsePercentage s.archivePercentage = .ok r.maxArchiveRatio ∧
      s.backpressurePercentage.elim (r.backpressureRatio = r.maxArchiveRatio + 0.02)
        (fun t => parsePercentage t = .ok r.backpressureRatio) ∧
      (r.containers.Pairwise fun a b =>
        a.1.toByteArray.data.toList < b.1.toByteArray.data.toList) ∧
      ∀ name root, (name, root) ∈ r.containers ↔ Maps s.containers name root := by
  have hagree := resolve_agrees s
  refine ⟨hagree.ok_iff.trans (checks_pass_iff s), hagree.error_iff, fun r hr => ?_⟩
  have hto : s.ResolvesTo r := hagree.of_ok hr
  refine ⟨hto.cleanup, hto.appendable, hto.archiveRatio, hto.backpressureRatio, ?_,
    fun name root => ?_⟩
  · rw [hto.containers]
    exact orderContainers_byteOrder _
  · rw [hto.containers]
    exact mem_orderContainers

end ClaimStore.Config
