import ClaimStore.Proofs.Repo.Registering
import ClaimStore.Proofs.Repo.InUse
import ClaimStore.Proofs.Repo.Pumping
/-!
# Who appends to a resource claim

Along every run the pool, the table of streams and the claims handed out agree. A resource
claim has a stream exactly when it is writable. A pooled one is writable, its stream has
written as many bytes as the file at its live place holds, fewer than the cap, it is pooled
once, and no unfinished claim holds it. One with a stream that is not pooled is held by exactly
one unfinished claim. So at most one writer appends to a file at a time.

All of it is read off the invariant, save that the file a stream appends to is the one at the
claim's live place (`Reachable.live_of_stream`). That needs the roots to lie apart: on two
containers sharing a root, removing an unused claim of the one deletes the file of a pooled
claim of the other, which stays pooled with its old length.
-/

set_option autoImplicit false

namespace ClaimStore

open ClaimStore.Claim ClaimStore.FileSystem

namespace Inv

variable {W : World}

theorem holders_le_one (hI : Inv W) (k : ClaimKey) :
    W.handed.countP (fun c => c.phase.active && c.key == k) +
      W.store.repo.pool.items.countP (·.1.key == k) ≤ 1 := by
  rw [hI.holders k]
  split <;> omega

theorem pool_keys_nodup (hI : Inv W) : (W.store.repo.pool.items.map (·.1.key)).Nodup := by
  rw [List.nodup_iff_count_le_one]
  intro k
  rw [List.count_eq_countP, List.countP_map]
  exact Nat.le_trans (Nat.le_add_left _ _) (hI.holders_le_one k)

theorem pooled_unheld (hI : Inv W) {c : Resource} {len : Nat}
    (hc : (c, len) ∈ W.store.repo.pool.items) {h : Handed} (hh : h ∈ W.handed)
    (hk : h.key = c.key) : h.phase = .done := by
  have hnone : W.handed.countP (fun c' => c'.phase.active && c'.key == c.key) = 0 := by
    have := hI.holders_le_one c.key
    have := countP_pool_pos hc
    omega
  have hh' := List.countP_eq_zero.1 hnone h hh
  rw [hk, beq_self_eq_true, Bool.and_true] at hh'
  cases hp : h.phase with
  | done => rfl
  | fresh | writing _ => simp [hp, Phase.active] at hh'

theorem one_holder (hI : Inv W) {k : ClaimKey} (hreg : W.store.repo.registered k = true)
    (hk : k ∉ W.store.repo.pool.items.map (·.1.key)) :
    W.handed.countP (fun c => c.phase.active && c.key == k) = 1 := by
  have hzero : W.store.repo.pool.items.countP (·.1.key == k) = 0 :=
    List.countP_eq_zero.2 fun e he hke => hk (List.mem_map.2 ⟨e, he, beq_iff_eq.1 hke⟩)
  have h := hI.holders k
  rw [hzero, hreg, if_pos rfl] at h
  exact h

theorem writable_of_stream (hI : Inv W) {k : ClaimKey} {n : Nat}
    (hkn : (k, n) ∈ W.store.repo.streams) :
    (W.store.repo.tracker.record k).state = .writable := by
  have hw := hI.writable k
  rw [(Repo.registered_iff _ _).2 ⟨n, hkn⟩] at hw
  exact beq_iff_eq.1 hw.symm

end Inv

theorem Reachable.pooled_stream {W : World} (hW : Reachable W) {c : Resource} {len : Nat}
    (hc : (c, len) ∈ W.store.repo.pool.items) :
    (W.store.repo.tracker.record c.key).state = .writable ∧
      ∃ n, (c.key, n) ∈ W.store.repo.streams ∧ (W.store.host.stream n).written = len ∧
        W.store.live? c.key = some (.file (W.store.host.stream n).inode) ∧
        (W.store.host.disk.bytes (W.store.host.stream n).inode).size = len ∧
        len < W.store.repo.settings.maxAppendable := by
  have hI := hW.inv
  obtain ⟨n, hn, hlen, hcap⟩ := hI.pool c len hc
  obtain ⟨-, i, -, hin, hsize⟩ := hI.stream_file c.key n hn
  refine ⟨hI.writable_of_stream hn, n, hn, hlen, hW.live_of_stream hn, ?_, hcap⟩
  rw [hin, ← hsize, hlen]

/-- Along every run the pool, the streams and the claims handed out agree: a resource claim
has a stream exactly when it is writable; a pooled one is writable and ends where its file at
its live place ends, below the cap; none is pooled twice, nor pooled while an unfinished claim
holds it; one with a stream that is not pooled is held by exactly one unfinished claim; and no
resource claim is held by two. -/
theorem pool_streams_and_writers_agree {W : World} (hW : Reachable W) :
    (∀ k, W.store.repo.registered k = (W.store.repo.tracker.record k).state.isWritable) ∧
    (∀ c len, (c, len) ∈ W.store.repo.pool.items →
      (W.store.repo.tracker.record c.key).state = .writable ∧
      ∃ n, (c.key, n) ∈ W.store.repo.streams ∧ (W.store.host.stream n).written = len ∧
        W.store.live? c.key = some (.file (W.store.host.stream n).inode) ∧
        (W.store.host.disk.bytes (W.store.host.stream n).inode).size = len ∧
        len < W.store.repo.settings.maxAppendable) ∧
    (W.store.repo.pool.items.map (·.1.key)).Nodup ∧
    (∀ c len, (c, len) ∈ W.store.repo.pool.items → ∀ h ∈ W.handed, h.key = c.key →
      h.phase = .done) ∧
    (∀ k, W.store.repo.registered k = true → k ∉ W.store.repo.pool.items.map (·.1.key) →
      W.handed.countP (fun h => h.phase.active && h.key == k) = 1) ∧
    (∀ k, W.handed.countP (fun h => h.phase.active && h.key == k) ≤ 1) := by
  have hI := hW.inv
  refine ⟨hI.writable, fun c len hc => hW.pooled_stream hc, hI.pool_keys_nodup,
    fun c len hc h hh hk => hI.pooled_unheld hc hh hk, fun k hreg hk => hI.one_holder hreg hk,
    fun k => ?_⟩
  exact Nat.le_trans (Nat.le_add_right _ _) (hI.holders_le_one k)

/-- Three bytes written through the first claim of `pooledWorld` and closed: the file at the
pooled claim's live place holds the three bytes its stream has written. -/
theorem abc_pooled_file_holds_its_length :
    ∃ n, (firstResource.key, n) ∈ abcPooled.store.repo.streams ∧
      abcPooled.store.live? firstResource.key =
        some (.file (abcPooled.store.host.stream n).inode) ∧
      (abcPooled.store.host.disk.bytes (abcPooled.store.host.stream n).inode).size = 3 := by
  have hmem : (firstResource, 3) ∈ abcPooled.store.repo.pool.items := by decide +kernel
  obtain ⟨-, n, hn, -, hlive, hsize, -⟩ :=
    (pool_streams_and_writers_agree abcPooled_reachable).2.1 _ _ hmem
  exact ⟨n, hn, hlive, hsize⟩

/-- `sharedWorld`'s claim, in container `b`, written with three bytes and closed: its resource
claim is pooled. -/
def sharedPooled : World := sharedWorld.run [.write 0, .send 0 ⟨#[97, 98, 99]⟩, .close 0]

/-- On a shared root, removing `a`'s claim of the name of `b`'s pooled claim, a claim nothing
uses, deletes the pooled claim's file and leaves it pooled with its three bytes. -/
theorem remove_on_shared_root_empties_pooled_claim :
    sharedSettings.Valid ∧
      sharedPooled.store.repo.pool.items = [(⟨"b", "1", "0-1", false⟩, 3)] ∧
      sharedPooled.store.live? ("b", "1", "0-1") = some (.file 0) ∧
      (sharedPooled.step (.remove ⟨"a", "1", "0-1", false⟩)).store.repo.pool.items =
        [(⟨"b", "1", "0-1", false⟩, 3)] ∧
      (sharedPooled.step (.remove ⟨"a", "1", "0-1", false⟩)).store.live? ("b", "1", "0-1") =
        none :=
  ⟨⟨by decide, by decide, by decide⟩, by decide +kernel, by decide +kernel, by decide +kernel,
    by decide +kernel⟩

end ClaimStore
