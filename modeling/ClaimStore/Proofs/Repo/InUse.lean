import ClaimStore.Proofs.Repo.LiveFiles
import ClaimStore.Proofs.Repo.Reading
/-!
# Nothing in use is destroyed

A step of a caller takes the live file of a resource claim away only from a claim it leaves
without claimants, frozen and without a stream, and a step that destroys nothing keeps every
live file. Both rest on the roots lying apart: on two containers sharing a root, the live place
of a claim of the one is the live place of the same-named claim of the other, and removing the
one, which nothing uses, takes the file of the other while it is being written.
-/

set_option autoImplicit false

namespace ClaimStore

open ClaimStore.Claim ClaimStore.FileSystem

theorem live_file_taken_only_from_idle {W : World} (hW : Reachable W) (st : Step)
    (hplain : st.PlainClaims) (hids : st.numbers → W.store.repo.ids.value + 1 < 2 ^ 64) :
    (st.destroys = false → W.store.KeepsLive (W.step st).store) ∧
      ∀ k i, W.store.live? k = some (.file i) → (W.step st).store.live? k ≠ some (.file i) →
        ((W.step st).store.repo.tracker.record k).count = 0 ∧
          ((W.step st).store.repo.tracker.record k).state = .frozen ∧
          (W.step st).store.repo.registered k = false := by
  have hI := hW.inv
  have hI' := (Reachable.step st hW hplain hids).inv
  refine ⟨hI.step_keepsLive st, fun k i hk hgone => ?_⟩
  obtain ⟨h0, hfrozen⟩ := hI.step_frees st hplain hids k i hk hgone
  -- a frozen claim is not writable, so it has no stream
  refine ⟨h0, hfrozen, ?_⟩
  rw [hI'.writable, hfrozen]
  rfl

/-- The claim of `pooledWorld`'s first create. -/
def firstResource : Resource := ⟨"default", "0", "0-1", false⟩

/-- The first claim created, its writer aborted, which freezes it, and counted down: nothing
uses it any more. -/
def releasedWorld : World :=
  pooledWorld.run [.create false, .write 0, .abort 0, .decrement firstResource]

/-- Removing a claim nothing uses takes its file, and leaves it idle. -/
theorem released_claim_removed_idle :
    Reachable releasedWorld ∧ releasedWorld.store.live? firstResource.key = some (.file 0) ∧
      (releasedWorld.step (.remove firstResource)).store.live? firstResource.key ≠
        some (.file 0) ∧
      (((releasedWorld.step (.remove firstResource)).store.repo.tracker.record
          firstResource.key).count = 0 ∧
        ((releasedWorld.step (.remove firstResource)).store.repo.tracker.record
          firstResource.key).state = .frozen ∧
        (releasedWorld.step (.remove firstResource)).store.repo.registered firstResource.key =
          false) := by
  have hplain : firstResource.Plain := ⟨by decide, by decide⟩
  have hW : Reachable releasedWorld :=
    .step (.decrement firstResource) (.step (.abort 0) (.step (.write 0) (.step (.create false)
      pooledWorld_reachable trivial fun _ => by decide +kernel) trivial nofun) trivial nofun)
      hplain nofun
  have hk : releasedWorld.store.live? firstResource.key = some (.file 0) := by decide +kernel
  have hgone : (releasedWorld.step (.remove firstResource)).store.live? firstResource.key ≠
      some (.file 0) := by decide +kernel
  exact ⟨hW, hk, hgone,
    (live_file_taken_only_from_idle hW (.remove firstResource) hplain nofun).2 _ _ hk hgone⟩

/-- Two containers, `a` and `b`, rooted at one place, with two sections and no archive. -/
def sharedSettings : Config.Resolved :=
  { containers := [("a", "x"), ("b", "x")], sections := 2, archiveEnabled := false,
    maxArchiveRatio := 0.5, backpressureRatio := 0.52, retentionNanos := 1000,
    cleanupNanos := 1000000000, maxAppendable := 1024, maxPooled := 4, alwaysSync := false,
    destructionNanos := 1000, reclaimQueue := 8, reclaimOfferNanos := 1000 }

/-- The repository of `sharedSettings` opened over a fresh disk, with its first claim created:
it lands in `b`, section `1`. -/
def sharedWorld : World :=
  ((World.launch sharedSettings 8 (Probe.Script.probe {}) Disk.fresh 0).get (by decide +kernel)).step (.create false)

/-- On a shared root, removing `a`'s claim of the name of `b`'s first claim, a claim nothing
uses, takes the live file of `b`'s claim while it is writable with one claimant. -/
theorem remove_on_shared_root_takes_file_in_use :
    sharedSettings.Valid ∧ sharedWorld.store.live? ("b", "1", "0-1") = some (.file 0) ∧
      sharedWorld.store.repo.tracker.record ("b", "1", "0-1") = ⟨1, .writable⟩ ∧
      (sharedWorld.step (.remove ⟨"a", "1", "0-1", false⟩)).store.live? ("b", "1", "0-1") =
        none ∧
      (sharedWorld.step (.remove ⟨"a", "1", "0-1", false⟩)).store.repo.tracker.record
        ("b", "1", "0-1") = ⟨1, .writable⟩ :=
  ⟨⟨by decide, by decide, by decide⟩, by decide +kernel, by decide +kernel, by decide +kernel,
    by decide +kernel⟩

end ClaimStore
