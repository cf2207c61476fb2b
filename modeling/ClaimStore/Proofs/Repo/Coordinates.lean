import ClaimStore.Proofs.Repo.Reading
/-!
# Where claims rebuilt from coordinates point

Tools name a content claim by its coordinates and rebuild it from them. Rebuilding refuses an
empty container or section, and an id that is empty or holds a slash or a backslash; it checks
nothing else. The rebuilt claim's paths are `<root>/<section>/<id>` and
`<root>/<section>/archive/<id>`, one section and one file below the container's root, exactly
when the section is a plain name (not empty, `.` or `..`, and without a slash) and the id is
neither `.` nor `..` (`Coordinates.paths_below_root_iff`).

The section is not checked that way: a section `..` is accepted and climbs out of the
container, so reading the rebuilt claim reads a file beside the container's root.
-/

set_option autoImplicit false

namespace ClaimStore.Claim.Coordinates

open ClaimStore.FileSystem

theorem toContent_resource {k : Coordinates} {c : Content} (h : k.toContent = .ok c) :
    c.resource = ⟨k.container, k.sectionName, k.id, false⟩ ∧ k.id ≠ "" ∧ '/' ∉ k.id.toList := by
  unfold toContent at h
  split at h
  · cases h
  split at h
  · cases h
  next hid =>
  simp only [Bool.or_eq_true, String.isEmpty_iff, List.any_eq_true, decide_eq_true_eq,
    not_or, not_exists, not_and] at hid
  cases h
  exact ⟨by split <;> rfl, hid.1, fun hs => (hid.2 '/' hs).1 rfl⟩

/-- The paths of a rebuilt claim lie one section and one file below its container's root, with
the claim's section and id as their names, exactly when the section is plain and the id is
neither `.` nor `..`. -/
theorem paths_below_root_iff {k : Coordinates} {c : Content} (hk : k.toContent = .ok c)
    {box : Container} {p : Place} (hp : place? box.root = some p) :
    (place? (box.claimPath c.resource) = some (p ++ [k.sectionName, k.id]) ∧
      place? (box.archivePath c.resource) = some (p ++ [k.sectionName, Archive.dirName, k.id])) ↔
      Path.Plain k.sectionName ∧ k.id ≠ "." ∧ k.id ≠ ".." := by
  obtain ⟨hres, hid0, hslash⟩ := toContent_resource hk
  rw [hres]
  constructor
  · rintro ⟨hlive, -⟩
    -- every name of a place a path reaches is plain, the section and the id among them
    have hplain := place?_plain hlive
    have hid := hplain k.id (by simp)
    exact ⟨hplain k.sectionName (by simp), hid.2.1, hid.2.2.1⟩
  · rintro ⟨hsec, hdot, hdotdot⟩
    have hr : Resource.Plain ⟨k.container, k.sectionName, k.id, false⟩ :=
      ⟨hsec, hid0, hdot, hdotdot, hslash⟩
    exact ⟨Container.claimPath_place hp hr, Container.archivePath_place hp hr⟩

/-- A container rooted at `c`, with one section and no archive. -/
def sampleBox : Container := Container.create "default" "c" 1 (Gate.create "default" false 1 0.5) 8 none

theorem numbered_paths_below_root :
    toContent ⟨"default", "1", "5-1", 0, -1⟩ = .ok (Content.fresh ⟨"default", "1", "5-1", false⟩ 0) ∧
      place? sampleBox.root = some ["work", "c"] ∧
      (place? (sampleBox.claimPath ⟨"default", "1", "5-1", false⟩) = some ["work", "c", "1", "5-1"] ∧
        place? (sampleBox.archivePath ⟨"default", "1", "5-1", false⟩) =
          some ["work", "c", "1", Archive.dirName, "5-1"]) :=
  ⟨by decide +kernel, by decide +kernel, (paths_below_root_iff (k := ⟨"default", "1", "5-1", 0, -1⟩)
    (c := Content.fresh ⟨"default", "1", "5-1", false⟩ 0) (by decide +kernel) (show place? sampleBox.root = some ["work", "c"] by decide +kernel)).2
    ⟨by decide +kernel, by decide, by decide⟩⟩

/-- A fresh disk with the file `secret`, holding `pw`, in the working directory. -/
def secretDisk : Disk :=
  let (i, d) := Disk.fresh.allocate ⟨#[112, 119]⟩ 0
  d.set ["work", "secret"] (.file i)

/-- The repository of one container rooted at `c`, opened over `secretDisk`: `secret` lies
beside the container's root, outside it. -/
def secretStore : Store := ((World.launch pooledSettings 8 (Probe.Script.probe {}) secretDisk 0).get (by decide +kernel)).store

/-- Coordinates with the section `..` are accepted, and reading the claim they rebuild reads
`secret`, a file outside the container. -/
theorem parent_section_reads_outside_root :
    toContent ⟨"default", "..", "secret", 0, -1⟩ =
        .ok (Content.fresh ⟨"default", "..", "secret", false⟩ 0) ∧
      place? (secretStore.repo.containers.map (·.root)).head! = some ["work", "c"] ∧
      ((Action.exportAll ⟨⟨"default", "..", "secret", false⟩, 0, 0⟩).exec secretStore).1 =
        .ok ⟨#[112, 119]⟩ :=
  ⟨by decide +kernel, by decide +kernel, by decide +kernel⟩

end ClaimStore.Claim.Coordinates
