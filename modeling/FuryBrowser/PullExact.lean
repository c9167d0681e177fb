import FuryBrowser.LaunchPull

/-!
# What a pull leaves in the directory

A bundle's files are written one by one over the directory, so the files of an
older copy that the bundle no longer has stay beside them. The synchronised
files after a pull are the bundle's exactly when the bundle covers those that
were there, which moving the copy aside guarantees, and carries nothing else.
-/

namespace FuryBrowser.PullExact

open PathTree AgentDisk BundleUnpack LaunchPull

/-- The synchronised files of the directory are the files of the bundle, with
their contents. -/
def SyncedExactly (agent : Agent) (request : LaunchRequest) (entries : List (Option TarEntry))
    (disk : Disk) : Prop :=
  ∀ q content,
    (∃ rel, q = dir agent request.id ++ rel ∧ synced rel = true ∧
      fileAt disk q = some content) ↔
      bundleFile (dir agent request.id) entries q = some content

/-- Every launch that unpacks the server's bundle starts the browser on exactly
the bundle's files. -/
def PullIsExact (agent : Agent) (request : LaunchRequest) (disk : Disk) : Prop :=
  ∀ ready inPlace entries, Checked agent request disk ready →
    Unpacks agent request ready inPlace entries →
      ∀ r disk', launch agent request disk = .ok r disk' →
        SyncedExactly agent request entries disk'

/-- Every synchronised file of the local copy unpacked over is in the bundle. -/
def CoversLocal (agent : Agent) (request : LaunchRequest) (entries : List (Option TarEntry))
    (ready : Disk) : Prop :=
  ∀ rel, synced rel = true → (fileAt ready (dir agent request.id ++ rel)).isSome →
    (bundleFile (dir agent request.id) entries (dir agent request.id ++ rel)).isSome

/-- The bundle carries only synchronised files, at paths inside the directory. -/
def OnlySynced (agent : Agent) (request : LaunchRequest)
    (entries : List (Option TarEntry)) : Prop :=
  ∀ entry, some entry ∈ entries → entry.isFile = true →
    ∃ rel, joinPath (dir agent request.id) entry = dir agent request.id ++ rel ∧
      synced rel = true

section Exact

variable {agent : Agent} {request : LaunchRequest} {disk disk' ready : Disk}
  {inPlace : Bool} {entries : List (Option TarEntry)}

/-- The stale port file is not synchronised. -/
theorem synced_ne_devToolsPort {rel : Path} (hs : synced rel = true) :
    dir agent request.id ++ rel ≠ devToolsPort agent request := by
  intro h
  obtain rfl := List.append_cancel_left h
  exact absurd hs (by decide)

/-- The synchronised files after a launch that unpacks. -/
theorem launch_synced (hc : Checked agent request disk ready)
    (hu : Unpacks agent request ready inPlace entries) {r : Launched}
    (hl : launch agent request disk = .ok r disk') {rel : Path} (hs : synced rel = true) :
    fileAt disk' (dir agent request.id ++ rel) =
      (bundleFile (dir agent request.id) entries (dir agent request.id ++ rel)).orElse fun _ =>
        if inPlace then fileAt ready (dir agent request.id ++ rel) else none := by
  obtain ⟨made, hmade, hready, -⟩ := id hc
  obtain ⟨ready', ⟨made', hmade', hready', -⟩, hp, -, -⟩ := launch_ok.mp hl
  cases hmade.symm.trans hmade'
  cases hready.trans hready'.symm
  obtain ⟨_, after, hp', hfiles⟩ := pull_of_unpacks hu
  cases hp.symm.trans hp'
  exact hfiles _ (List.prefix_append _ _) (synced_ne_devToolsPort hs)

/-- A checked launch that unpacks does start the browser. -/
theorem launch_of_unpacks (hc : Checked agent request disk ready)
    (hu : Unpacks agent request ready inPlace entries) :
    ∃ r disk', launch agent request disk = .ok r disk' := by
  obtain ⟨version, after, hp, -⟩ := pull_of_unpacks hu
  exact ⟨⟨_, _, version⟩, after, launch_ok.mpr ⟨ready, hc, hp, rfl, rfl⟩⟩

/-- An exact pull needs a bundle that covers what it is unpacked over. -/
theorem coversLocal_of_exact (hc : Checked agent request disk ready)
    (hu : Unpacks agent request ready true entries) {r : Launched}
    (hl : launch agent request disk = .ok r disk')
    (he : SyncedExactly agent request entries disk') :
    CoversLocal agent request entries ready := by
  intro rel hs hlocal
  cases hb : bundleFile (dir agent request.id) entries (dir agent request.id ++ rel) with
  | some content => rfl
  | none =>
    obtain ⟨content, hcontent⟩ := Option.isSome_iff_exists.mp hlocal
    have hafter := launch_synced hc hu hl hs
    rw [hb, Option.orElse_none, if_pos rfl, hcontent] at hafter
    have hin := (he _ content).mp ⟨rel, rfl, hs, hafter⟩
    rw [hb] at hin
    exact absurd hin (by simp)

/-- An exact pull needs a bundle that carries nothing else. -/
theorem onlySynced_of_exact (hu : Unpacks agent request ready inPlace entries)
    (he : SyncedExactly agent request entries disk') : OnlySynced agent request entries := by
  intro entry hmem hf
  obtain ⟨_, bytes, wrapped, _, _, -, -, -, -, ho, n, after, hunpack⟩ := hu
  obtain ⟨entries', _, ho', -, hgo, -⟩ := unpack_ok hunpack
  cases ho.symm.trans ho'
  obtain ⟨content, hcontent⟩ := Option.isSome_iff_exists.mp (unpackEntries_content hgo hmem hf)
  obtain ⟨rel, hrel, hs, -⟩ := (he _ content).mpr hcontent
  exact ⟨rel, hrel, hs⟩

/-- A bundle that covers the local copy and carries only synchronised files is
what the directory then holds. -/
theorem exact_of_covers (hc : Checked agent request disk ready)
    (hu : Unpacks agent request ready inPlace entries) {r : Launched}
    (hl : launch agent request disk = .ok r disk')
    (hcover : inPlace = true → CoversLocal agent request entries ready)
    (honly : OnlySynced agent request entries) :
    SyncedExactly agent request entries disk' := by
  intro q content
  constructor
  · rintro ⟨rel, rfl, hs, hfile⟩
    have hafter := launch_synced hc hu hl hs
    rw [hfile] at hafter
    cases hb : bundleFile (dir agent request.id) entries (dir agent request.id ++ rel) with
    | some _ => rw [hafter, hb, Option.orElse_some]
    | none =>
      cases inPlace with
      | false => simp [hb] at hafter
      | true =>
        rw [hb, Option.orElse_none, if_pos rfl] at hafter
        have hin := hcover rfl rel hs (by rw [← hafter]; rfl)
        rw [hb] at hin
        exact absurd hin (by simp)
  · intro hb
    obtain ⟨entry, hmem, hf, rfl⟩ := bundleFile_mem hb
    obtain ⟨rel, hrel, hs⟩ := honly entry hmem hf
    rw [hrel] at hb ⊢
    exact ⟨rel, rfl, hs, by rw [launch_synced hc hu hl hs, hb, Option.orElse_some]⟩

/-- Pulls are exact for a directory and a server exactly when every bundle the
launch unpacks covers the local copy it is unpacked over and carries only
synchronised files. -/
theorem pullIsExact_iff :
    PullIsExact agent request disk ↔ ∀ ready inPlace entries,
      Checked agent request disk ready → Unpacks agent request ready inPlace entries →
        (inPlace = true → CoversLocal agent request entries ready) ∧
          OnlySynced agent request entries := by
  constructor
  · intro h ready inPlace entries hc hu
    obtain ⟨r, disk', hl⟩ := launch_of_unpacks hc hu
    have he := h ready inPlace entries hc hu r disk' hl
    refine ⟨fun hin => ?_, onlySynced_of_exact hu he⟩
    subst hin
    exact coversLocal_of_exact hc hu hl he
  · intro h ready inPlace entries hc hu r disk' hl
    obtain ⟨hcover, honly⟩ := h ready inPlace entries hc hu
    exact exact_of_covers hc hu hl hcover honly

end Exact

section Leftover

/-- The sample profile at version 1, with one file the server's bundle lacks. -/
def sampleLocal : Disk :=
  let inside := ["fury", "profiles", "7f9c2ba4-e88f-4276-9d5e-0b1c6a3d4e5f"]
  [(["fury"], .dir), (["fury", "profiles"], .dir), (inside, .dir),
    (inside ++ ["Default"], .dir), (inside ++ ["Default", "Cookies-journal"], .file [1]),
    (["fury", "profiles", "7f9c2ba4-e88f-4276-9d5e-0b1c6a3d4e5f.version"], .file (utf8 "1"))]

/-- The sample launch at version 2, its cookie key carried over. -/
abbrev sampleLaunch : LaunchRequest := sampleRequest (some sampleOldOsCryptKey) "2"

theorem sampleLocal_checked : Checked sampleAgent sampleLaunch sampleLocal sampleLocal := by
  refine ⟨sampleLocal, by decide, by decide, ?_⟩
  have hs : succeeds (checkKeyMarker sampleAgent sampleLaunch) sampleLocal = true := by
    decide
  obtain ⟨_, _, hcheck⟩ := succeeds_iff.mp hs
  rw [hcheck, checkKeyMarker_ok hcheck]

theorem sampleLocal_unpacks :
    Unpacks sampleAgent sampleLaunch sampleLocal true [some sampleEntry] := by
  have hs : succeeds (unpack sampleLibrary (magic ++ .replicate 24 0x44 ++ sampleBody)
      (sharedPrefix ++ sampleBase64) (launchSealer sampleAgent sampleLaunch)
      (dir sampleAgent sampleLaunch.id)) sampleLocal = true := by
    decide +kernel
  obtain ⟨n, after, hunpack⟩ := succeeds_iff.mp hs
  exact ⟨_, _, _, 2, sampleLocal, rfl, by decide +kernel, by decide +kernel, ⟨rfl, rfl⟩,
    by decide +kernel, n, after, hunpack⟩

/-- A pull of the sample profile leaves a file of version 1 beside version 2. -/
theorem oldFile_survives : ¬PullIsExact sampleAgent sampleLaunch sampleLocal := by
  intro h
  obtain ⟨r, disk', hl⟩ := launch_of_unpacks sampleLocal_checked sampleLocal_unpacks
  have he := h _ _ _ sampleLocal_checked sampleLocal_unpacks r disk' hl
  have hcover := coversLocal_of_exact sampleLocal_checked sampleLocal_unpacks hl he
  exact absurd (hcover ["Default", "Cookies-journal"] (by decide) (by decide))
    (by decide)

end Leftover

end FuryBrowser.PullExact
