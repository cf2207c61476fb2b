import ClaimStore.Proofs.Repo.Copying
/-!
# Cloning keeps the invariant

A clone is a create followed by a copy into the new claim, a claim the caller never holds. The
copy is followed in the world of the create step, where the new claim is the caller's last one;
once the copy has ended its writer that claim is done, and a done claim can be dropped from the
caller's claims (`Inv.drop_done`). A copy that failed leaves its resource claim without a
stream, so the rollback only counts it down and removes it when nothing else uses it. Either
way the file noted for the new claim is noted afresh from the store that is left
(`Inv.renote`): kept while its resource claim still has a stream, forgotten otherwise.
-/

set_option autoImplicit false

namespace ClaimStore

open ClaimStore.Claim ClaimStore.FileSystem

theorem World.mem_note {files : List (ClaimKey × Nat)} {s : Store} {e : ClaimKey × Nat} :
    e ∈ World.note files s ↔ e ∈ files ∨
      ∃ n, (e.1, n) ∈ s.repo.streams ∧ e.1 ∉ files.map (·.1) ∧ e.2 = (s.host.stream n).inode := by
  have hnew : ∀ k : ClaimKey, (!files.any (·.1 == k)) = true ↔ k ∉ files.map (·.1) := by
    intro k
    simp only [Bool.not_eq_true', List.any_eq_false, List.mem_map, not_exists, not_and, beq_iff_eq]
  unfold World.note
  rw [List.mem_append, List.mem_map]
  refine or_congr_right ⟨?_, ?_⟩
  · rintro ⟨⟨k, n⟩, hmem, rfl⟩
    rw [List.mem_filter, hnew] at hmem
    exact ⟨n, hmem.1, hmem.2, rfl⟩
  · rintro ⟨n, hmem, hk, he⟩
    exact ⟨(e.1, n), List.mem_filter.2 ⟨hmem, (hnew e.1).2 hk⟩, Prod.ext rfl he.symm⟩

namespace Inv

theorem drop_done {s : Store} {hs : List Handed} {x : Handed} {fs : List (ClaimKey × Nat)}
    (hI : Inv ⟨s, hs ++ [x], fs⟩) (hx : x.phase = .done) : Inv ⟨s, hs, fs⟩ :=
  { hI with
    holders := fun k => by simpa [List.countP_append, hx, Phase.active] using hI.holders k
    stored := fun c hc => hI.stored c (List.mem_append_left _ hc)
    cells := ⟨hI.cells.1.sublist ((List.sublist_append_left hs [x]).map _),
      fun c hc => hI.cells.2 c (List.mem_append_left _ hc)⟩
    writer := fun c hc => hI.writer c (List.mem_append_left _ hc) }

/-- The files noted past `fs` from one store may be noted afresh from another, as long as the
caller's claims are of files in `fs`. -/
theorem renote {s s' : Store} {hs : List Handed} {fs : List (ClaimKey × Nat)}
    (hI : Inv ⟨s, hs, World.note fs s'⟩) (hfs : ∀ c ∈ hs, c.key ∈ fs.map (·.1)) :
    Inv ⟨s, hs, World.note fs s⟩ := by
  have hfs0 : ∀ e ∈ fs, e ∈ World.note fs s' := fun e he => World.mem_note.2 (.inl he)
  have hold : ∀ k i, (k, i) ∈ World.note fs s' → k ∈ fs.map (·.1) → (k, i) ∈ fs := by
    intro k i hki hk
    obtain ⟨⟨k', i'⟩, hi', rfl⟩ := List.mem_map.1 hk
    rw [hI.file_unique hki (hfs0 _ hi')]
    exact hi'
  have hsub : ∀ e ∈ World.note fs s, e ∈ World.note fs s' := by
    intro e he
    rcases World.mem_note.1 he with he | ⟨n, hn, -, hi⟩
    · exact hfs0 e he
    · obtain ⟨-, i, hki, hin, -⟩ := hI.stream_file e.1 n hn
      rw [show e = (e.1, i) from Prod.ext rfl (hi.trans hin)]
      exact hki
  refine
    { hI with
      files_nodup := ?nodup
      files_inj := fun k k' i hk hk' => hI.files_inj k k' i (hsub _ hk) (hsub _ hk')
      numbered := fun k i hk => hI.numbered k i (hsub _ hk)
      placed := fun k i hk => hI.placed k i (hsub _ hk)
      unused := fun c hc p hp sec t j ht hj => ?unused
      stream_file := fun k n hkn => ?stream_file
      stored := fun c hc => ?stored }
  case nodup =>
    have h0 := hI.files_nodup
    unfold World.note at h0 ⊢
    rw [List.map_append, List.nodup_append] at h0 ⊢
    refine ⟨h0.1, ?_, fun a ha b hb hab => ?_⟩
    · rw [List.map_map]
      exact hI.streams_nodup.sublist (List.filter_sublist.map _)
    · obtain ⟨e, he, rfl⟩ := List.mem_map.1 hb
      obtain ⟨e', he', rfl⟩ := List.mem_map.1 he
      have hk := (List.mem_filter.1 he').2
      simp only [Bool.not_eq_true', List.any_eq_false, beq_iff_eq] at hk
      obtain ⟨f, hf, rfl⟩ := List.mem_map.1 ha
      exact hk f hf hab
  case unused =>
    obtain ⟨h1, h2, h3⟩ := hI.unused c hc p hp sec t j ht hj
    refine ⟨h1, h2, fun hm => h3 ?_⟩
    obtain ⟨e, he, hek⟩ := List.mem_map.1 hm
    exact List.mem_map.2 ⟨e, hsub e he, hek⟩
  case stream_file =>
    obtain ⟨hopen, i, hki, hin, hw⟩ := hI.stream_file k n hkn
    refine ⟨hopen, i, ?_, hin, hw⟩
    by_cases hk : k ∈ fs.map (·.1)
    · exact World.mem_note.2 (.inl (hold k i hki hk))
    · exact World.mem_note.2 (.inr ⟨n, hkn, hk, hin.symm⟩)
  case stored =>
    obtain ⟨i, hki, hst⟩ := hI.stored c hc
    exact ⟨i, World.mem_note.2 (.inl (hold _ i hki (hfs c hc))), hst⟩

end Inv

namespace Action

theorem keeps_rollback {c : ClaimRef} (hr : c.resource.Plain) {W : World} (hI : Inv W)
    (hreg : W.store.repo.registered c.resource.key = false) :
    Inv { W with store := ((rollback c).exec W.store).2 } := by
  -- a claim without a stream is not writable, so there is no stream to retire
  have hw : (W.store.repo.tracker.state c.resource).isWritable = false := by
    rw [← hreg, hI.writable]
    rfl
  unfold rollback
  simp only [exec_bind, exec_repo, hw]
  exact ((keeps_decrement hr).bind fun _ => (keeps_removeResource hr).attempt.bind
    fun _ => Keeps.pure _) W hI

end Action

namespace Inv

variable {W : World}

/-- The copy of a clone runs in the world of its create step, where the new claim is the
caller's last one: a copy that ends leaves the claim done, the invariant holds, and a copy that
failed leaves the new claim's resource claim without a stream. -/
theorem clone_copy (hI : Inv W) (hids : W.store.repo.ids.value + 1 < 2 ^ 64) {lossTolerant : Bool}
    {copy : ClaimRef} {s1 : Store}
    (hcr : (Action.create lossTolerant).exec W.store = (.ok (.claim copy), s1)) (original : ClaimRef) :
    copy.resource.Plain ∧
      ((∃ r w, ((Action.copyClaim original copy).exec s1).1 = .ok (.endless r w)) ∨
      ∃ x : Handed, x.phase = .done ∧
        Inv ⟨((Action.copyClaim original copy).exec s1).2, W.handed ++ [x], World.note W.files s1⟩ ∧
        (((Action.copyClaim original copy).exec s1).1 = .ok .done ∨
          ((Action.copyClaim original copy).exec s1).2.repo.registered copy.resource.key = false)) := by
  have hc := hI.step_create hids lossTolerant
  simp only [World.step, hcr] at hc
  have hk : W.handed.length < (W.handed ++ [(⟨copy, .empty, .fresh⟩ : Handed)]).length := by simp
  have hget : (W.handed ++ [(⟨copy, .empty, .fresh⟩ : Handed)])[W.handed.length] =
      ⟨copy, .empty, .fresh⟩ := by simp
  have hplain : copy.resource.Plain := by
    obtain ⟨i, hi, -⟩ := hc.stored _ (List.mem_append_right _ (List.mem_singleton_self _))
    exact (hc.numbered _ i hi).1.plain
  have hcopy := hc.copy hk (by rw [hget]) original
  simp only [hget, List.set_append_right _ _ (Nat.le_refl _), Nat.sub_self,
    List.set_cons_zero] at hcopy
  exact ⟨hplain, hcopy⟩

/-- A clone keeps the invariant, as long as numbers are left to draw. -/
theorem step_clone (hI : Inv W) (hids : W.store.repo.ids.value + 1 < 2 ^ 64) (original : ClaimRef)
    (lossTolerant : Bool) : Inv (W.step (.clone original lossTolerant)) := by
  have hc := hI.step_create hids lossTolerant
  simp only [World.step] at hc ⊢
  unfold Action.clone
  rw [Action.exec_bind]
  rcases hcr : (Action.create lossTolerant).exec W.store with ⟨_ | (copy | _), s1⟩ <;>
    rw [hcr] at hc <;> dsimp only at hc ⊢
  · exact hc
  · obtain ⟨hplain, hcopy⟩ := hI.clone_copy hids hcr original
    have hdone : ∀ x : Handed, x.phase = .done → ∀ s,
        Inv ⟨s, W.handed ++ [x], World.note W.files s1⟩ → Inv (W.after s) :=
      fun x hx s h => (h.drop_done hx).renote fun c hc => by
        obtain ⟨i, hi, -⟩ := hI.stored c hc
        exact List.mem_map.2 ⟨_, hi, rfl⟩
    simp only [Action.exec_bind, Action.exec_attempt]
    rcases hcp : (Action.copyClaim original copy).exec s1 with ⟨_ | (_ | ⟨r, w⟩), s2⟩ <;>
      rw [hcp] at hcopy <;> dsimp only at hcopy ⊢
    · obtain ⟨x, hx, hI2, hres⟩ := hcopy.resolve_left (by simp)
      have h3 := Action.keeps_rollback hplain hI2 (hres.resolve_left (by simp))
      rw [Action.exec_bind]
      rcases hrb : (Action.rollback copy).exec s2 with ⟨_ | _, s3⟩ <;> rw [hrb] at h3 <;>
        exact hdone x hx s3 h3
    · obtain ⟨x, hx, hI2, -⟩ := hcopy.resolve_left (by simp)
      exact hdone x hx s2 hI2
    -- a copy that feeds itself never returns: the caller stays where it was
    · simpa only [Action.exec_pure] using hI
  · exact hc

end Inv

end ClaimStore
