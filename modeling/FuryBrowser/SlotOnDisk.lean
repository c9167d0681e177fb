import FuryBrowser.LaunchPull

/-!
# The slot on the disk

The slot of a profile is what its directory and the two files beside it mean.
The disk operations of a launch and of a close do to the disk what the slot's
operations do to the slot, for bundles whose files stay inside the directory.
-/

namespace FuryBrowser.SlotOnDisk

open PathTree AgentDisk BundleUnpack UnsyncedSlot LaunchPull

/-- The files of a copy, by path inside it. -/
abbrev Files := Path → Option Bytes

/-- A bundle's files over a copy's. -/
def overFiles (bundle old : Files) : Files := fun rel => (bundle rel).orElse fun _ => old rel

/-- The files a bundle puts inside the directory. -/
def bundleFiles (agent : Agent) (id : ProfileId) (entries : List (Option TarEntry)) : Files :=
  fun rel => bundleFile (dir agent id) entries (dir agent id ++ rel)

/-- A path beside the directory that neither record is kept at. -/
def Beside (agent : Agent) (id : ProfileId) (p : Path) : Prop :=
  p.length = (dir agent id).length ∧ p ≠ dir agent id ∧ p ≠ heldPath agent id ∧
    p ≠ markerPath agent id

/-- The disk keeps the slot: the directory, the two records, and the copies
moved aside, which are found somewhere beside it. -/
structure Represents (agent : Agent) (id : ProfileId) (disk : Disk) (s : Slot Files) : Prop where
  /-- The directory exists exactly when the slot has content. -/
  present : isDir disk (dir agent id) = s.dir.isSome
  /-- The directory's synchronised files. -/
  files : ∀ rel, synced rel = true →
    fileAt disk (dir agent id ++ rel) = (s.dir.getD fun _ => none) rel
  version : recordedVersion agent id disk = s.version
  /-- The marker of an unsent session. -/
  unsynced : base agent id disk = s.unsynced
  aside : ∀ c ∈ s.aside, ∃ p, Beside agent id p ∧
    ∀ rel content, synced rel = true → c rel = some content →
      fileAt disk (p ++ rel) = some content
  /-- Nothing stands in the way of the version file. -/
  heldFree : isDir disk (heldPath agent id) = false
  /-- Nothing stands in the way of the marker. -/
  markerFree : isDir disk (markerPath agent id) = false

section Paths

variable {agent : Agent} {id : ProfileId}

theorem dir_eq : dir agent id = (agent.dataDir ++ ["profiles"]) ++ [id.text] := by
  simp [dir, profileDir]

theorem dir_ne_nil : dir agent id ≠ [] := by simp [dir, profileDir]

theorem beside_length (ext : String) :
    (besideProfileDir agent.dataDir id ext).length = (dir agent id).length := by
  simp [besideProfileDir, dir, profileDir]

theorem beside_parent (ext : String) :
    (besideProfileDir agent.dataDir id ext).dropLast = agent.dataDir ++ ["profiles"] := by
  rw [besideProfileDir, show agent.dataDir ++ ["profiles", id.text ++ "." ++ ext] =
    (agent.dataDir ++ ["profiles"]) ++ [id.text ++ "." ++ ext] by simp, List.dropLast_concat]

/-- Names with different extensions are different. -/
theorem beside_inj {ext ext' : String} (h : besideProfileDir agent.dataDir id ext =
    besideProfileDir agent.dataDir id ext') : ext = ext' := by
  unfold besideProfileDir at h
  simpa using h

theorem heldPath_ne_markerPath : heldPath agent id ≠ markerPath agent id := by
  intro h
  exact absurd (beside_inj h) (by decide)

/-- A copy moved aside is beside the directory. -/
theorem asidePath_beside : Beside agent id (asidePath agent id) := by
  refine ⟨beside_length _, fun h => ?_, fun h => ?_, fun h => ?_⟩
  · have hinside : dir agent id <+: asidePath agent id := h ▸ List.prefix_refl _
    exact besideProfileDir_outside _ _ _ hinside
  · have hext := congrArg (fun s => s.toList.head?) (beside_inj h)
    simp at hext
  · have hext := congrArg (fun s => (s.toList.drop 3).head?) (beside_inj h)
    simp at hext

/-- Paths of different siblings stay different below them. -/
theorem append_ne_of_length {p q : Path} (hl : p.length = q.length) (hne : p ≠ q)
    (rel rel' : Path) : p ++ rel ≠ q ++ rel' := fun h =>
  hne (List.append_inj_left h hl)

/-- Nothing beside the directory is inside it. -/
theorem beside_not_inside {p : Path} (hl : p.length = (dir agent id).length)
    (hne : p ≠ dir agent id) (rel : Path) : ¬dir agent id <+: p ++ rel := by
  rintro ⟨rest, h⟩
  exact append_ne_of_length hl hne rel rest h.symm

end Paths

section Records

variable {agent : Agent} {id : ProfileId} {disk disk' : Disk} {s : Slot Files}

theorem recordedVersion_congr
    (h : fileAt disk' (heldPath agent id) = fileAt disk (heldPath agent id)) :
    recordedVersion agent id disk' = recordedVersion agent id disk := by
  simp only [recordedVersion, readToString, h]

theorem base_congr (h : fileAt disk' (markerPath agent id) = fileAt disk (markerPath agent id)) :
    base agent id disk' = base agent id disk := by
  simp only [base, h]

/-- A change at one path beside the directory leaves the directory's files and
the copies aside. -/
theorem Represents.aside_of_change (h : Represents agent id disk s) {changed : Path}
    (hl : changed.length = (dir agent id).length)
    (hne : ∀ p, Beside agent id p → p ≠ changed)
    (hsame : ∀ q, q ≠ changed → fileAt disk' q = fileAt disk q) :
    ∀ c ∈ s.aside, ∃ p, Beside agent id p ∧
      ∀ rel content, synced rel = true → c rel = some content →
        fileAt disk' (p ++ rel) = some content := by
  intro c hc
  obtain ⟨p, hp, hfiles⟩ := h.aside c hc
  refine ⟨p, hp, fun rel content hsync hrel => ?_⟩
  have hdiff : p ++ rel ≠ changed := by
    have := append_ne_of_length (hp.1.trans hl.symm) (hne p hp) rel []
    rwa [List.append_nil] at this
  rw [hsame _ hdiff, hfiles rel content hsync hrel]

/-- `record_held` records the version, when it fits the file's number. -/
theorem recordHeld_represents (h : Represents agent id disk s)
    (hparent : isDir disk (agent.dataDir ++ ["profiles"]) = true) {version : ℤ}
    (hlo : -2147483648 ≤ version) (hhi : version ≤ 2147483647) {u : Unit}
    (hrun : recordHeld agent id version disk = .ok u disk') :
    Represents agent id disk' (s.recordHeld version) := by
  have hpar : isDir disk (heldPath agent id).dropLast = true := by
    rw [heldPath, beside_parent]
    exact hparent
  obtain ⟨written, hw⟩ :=
    writeFile_of_parent (utf8 (toString version)) hpar h.heldFree
  obtain rfl := tryIo_ok.mp hrun
  rw [hw, Option.getD_some]
  have hsame (q : Path) (hq : q ≠ heldPath agent id) : fileAt written q = fileAt disk q := by
    rw [writeFile_fileAt hw, if_neg hq]
  refine ⟨?_, fun rel hsync => ?_, ?_, ?_, ?_, ?_, ?_⟩
  · rw [writeFile_isDir hw]
    exact h.present
  · rw [hsame _ (heldPath_ne (List.prefix_append _ rel))]
    exact h.files rel hsync
  · have hread : readToString written (heldPath agent id) = some (toString version) := by
      rw [readToString, writeFile_fileAt hw, if_pos rfl, Option.bind_some, fromUtf8_utf8]
    rw [recordedVersion, hread, Option.bind_some, parseI32_toString hlo hhi]
    rfl
  · rw [base_congr (hsame _ heldPath_ne_markerPath.symm)]
    exact h.unsynced
  · exact h.aside_of_change (beside_length _) (fun p hp => hp.2.2.1) hsame
  · rw [writeFile_isDir hw]
    exact h.heldFree
  · rw [writeFile_isDir hw]
    exact h.markerFree

/-- `mark` records the version the unsent session started from. -/
theorem mark_represents (h : Represents agent id disk s)
    (hparent : isDir disk (agent.dataDir ++ ["profiles"]) = true) {baseVersion : ℤ}
    (hcodec : agent.readMarker (agent.writeMarker baseVersion) = some baseVersion) {u : Unit}
    (hrun : mark agent id baseVersion disk = .ok u disk') :
    Represents agent id disk' (s.mark baseVersion) := by
  have hpar : isDir disk (markerPath agent id).dropLast = true := by
    rw [markerPath, beside_parent]
    exact hparent
  obtain ⟨written, hw⟩ :=
    writeFile_of_parent (agent.writeMarker baseVersion) hpar h.markerFree
  obtain rfl := tryIo_ok.mp hrun
  rw [hw, Option.getD_some]
  have hsame (q : Path) (hq : q ≠ markerPath agent id) : fileAt written q = fileAt disk q := by
    rw [writeFile_fileAt hw, if_neg hq]
  refine ⟨?_, fun rel hsync => ?_, ?_, ?_, ?_, ?_, ?_⟩
  · rw [writeFile_isDir hw]
    exact h.present
  · rw [hsame _ (markerPath_ne (List.prefix_append _ rel))]
    exact h.files rel hsync
  · rw [recordedVersion_congr (hsame _ heldPath_ne_markerPath)]
    exact h.version
  · simp [base, writeFile_fileAt hw, hcodec, Slot.mark]
  · exact h.aside_of_change (beside_length _) (fun p hp => hp.2.2.2) hsame
  · rw [writeFile_isDir hw]
    exact h.heldFree
  · rw [writeFile_isDir hw]
    exact h.markerFree

/-- `clear` forgets the unsent session. -/
theorem clear_represents (h : Represents agent id disk s) {u : Unit}
    (hrun : clear agent id disk = .ok u disk') : Represents agent id disk' s.clear := by
  obtain rfl := tryIo_ok.mp hrun
  rw [Option.getD_some]
  have hsame (q : Path) (hq : q ≠ markerPath agent id) :
      fileAt (removeFile disk (markerPath agent id)) q = fileAt disk q := by
    rw [removeFile_fileAt, if_neg hq]
  refine ⟨?_, fun rel hsync => ?_, ?_, ?_, ?_, ?_, ?_⟩
  · rw [removeFile_isDir]
    exact h.present
  · rw [hsame _ (markerPath_ne (List.prefix_append _ rel))]
    exact h.files rel hsync
  · rw [recordedVersion_congr (hsame _ heldPath_ne_markerPath)]
    exact h.version
  · simp [base, removeFile_fileAt, Slot.clear]
  · exact h.aside_of_change (beside_length _) (fun p hp => hp.2.2.2) hsame
  · rw [removeFile_isDir]
    exact h.heldFree
  · rw [removeFile_isDir]
    exact h.markerFree

end Records

section Copies

variable {agent : Agent} {id : ProfileId} {disk disk' : Disk} {s : Slot Files}

/-- `set_aside` moves the copy beside the directory and forgets both records. -/
theorem setAside_represents (h : Represents agent id disk s) {files : Files}
    (hdir : s.dir = some files) {u : Unit} (hrun : setAside agent id disk = .ok u disk') :
    Represents agent id disk' ⟨none, none, none, files :: s.aside⟩ := by
  unfold setAside clear at hrun
  simp only [bind_ok, io_ok, tryIo_ok, Option.getD_some] at hrun
  obtain ⟨_, moved, hmoved, _, cleared, rfl, rfl⟩ := hrun
  have haside : Beside agent id (asidePath agent id) := asidePath_beside
  have hlen : (dir agent id).length = (asidePath agent id).length := haside.1.symm
  have hfile (q : Path) (hheld : q ≠ heldPath agent id) (hmarker : q ≠ markerPath agent id) :
      fileAt (removeFile (removeFile moved (markerPath agent id)) (heldPath agent id)) q =
        fileAt moved q := by
    rw [removeFile_fileAt, if_neg hheld, removeFile_fileAt, if_neg hmarker]
  have hgone (rel : Path) : nodeAt moved (dir agent id ++ rel) = none :=
    renameDir_gone hmoved (Nat.le_of_eq hlen) rel
  have hsibling (p : Path) (hl : p.length = (dir agent id).length) (hne : p ≠ dir agent id)
      (hna : p ≠ asidePath agent id) (rel : Path) :
      nodeAt moved (p ++ rel) = nodeAt disk (p ++ rel) := by
    refine renameDir_elsewhere hmoved (beside_not_inside hl hne rel) ?_
    rintro ⟨rest, heq⟩
    exact append_ne_of_length (hl.trans hlen) hna rel rest heq.symm
  refine ⟨?_, fun rel hsync => ?_, ?_, ?_, ?_, ?_, ?_⟩
  · rw [removeFile_isDir, removeFile_isDir]
    have hnone := hgone []
    rw [List.append_nil] at hnone
    cases hd : isDir moved (dir agent id) with
    | false => rfl
    | true =>
      rw [isDir_iff dir_ne_nil, hnone] at hd
      cases hd
  · rw [hfile _ (heldPath_ne (List.prefix_append _ rel))
      (markerPath_ne (List.prefix_append _ rel)), fileAt, hgone rel]
    rfl
  · simp [recordedVersion, readToString, removeFile_fileAt]
  · simp [base, removeFile_fileAt]
  · intro c hc
    rcases List.mem_cons.mp hc with rfl | hold
    · refine ⟨asidePath agent id, haside, fun rel content hsync hrel => ?_⟩
      have hheld := append_ne_of_length
        (haside.1.trans (beside_length "version").symm) haside.2.2.1 rel []
      have hmarker := append_ne_of_length
        (haside.1.trans (beside_length "unsynced.json").symm) haside.2.2.2 rel []
      rw [List.append_nil] at hheld hmarker
      rw [hfile _ hheld hmarker, fileAt, renameDir_moved hmoved rel]
      have hwas := h.files rel hsync
      rw [hdir, Option.getD_some, hrel] at hwas
      exact hwas
    · obtain ⟨p, hp, hfiles⟩ := h.aside c hold
      refine ⟨p, hp, fun rel content hsync hrel => ?_⟩
      have hheld := append_ne_of_length
        (hp.1.trans (beside_length "version").symm) hp.2.2.1 rel []
      have hmarker := append_ne_of_length
        (hp.1.trans (beside_length "unsynced.json").symm) hp.2.2.2 rel []
      rw [List.append_nil] at hheld hmarker
      have hna : p ≠ asidePath agent id := by
        rintro rfl
        have hfree := fileAt_of_isFree (renameDir_isFree hmoved) (by
          simp [asidePath, besideProfileDir]) rel
        rw [hfiles rel content hsync hrel] at hfree
        cases hfree
      rw [hfile _ hheld hmarker, fileAt, hsibling p hp.1 hp.2.1 hna rel]
      exact hfiles rel content hsync hrel
  · rw [removeFile_isDir, removeFile_isDir]
    have hkeep := hsibling (heldPath agent id) (beside_length _)
      (fun heq => besideProfileDir_outside _ _ _ ⟨[], by rw [List.append_nil]; exact heq.symm⟩)
      haside.2.2.1.symm []
    rw [List.append_nil] at hkeep
    rw [isDir_congr hkeep]
    exact h.heldFree
  · rw [removeFile_isDir, removeFile_isDir]
    have hkeep := hsibling (markerPath agent id) (beside_length _)
      (fun heq => besideProfileDir_outside _ _ _ ⟨[], by rw [List.append_nil]; exact heq.symm⟩)
      haside.2.2.2.symm []
    rw [List.append_nil] at hkeep
    rw [isDir_congr hkeep]
    exact h.markerFree

/-- The files of a bundle are named by relative paths. -/
def StaysInside (entries : List (Option TarEntry)) : Prop :=
  ∀ entry, some entry ∈ entries → entry.isFile = true → entry.absolute = false

/-- A bundle that stays inside has no file elsewhere. -/
theorem bundleFile_outside {entries : List (Option TarEntry)} (hin : StaysInside entries)
    {q : Path} (hq : ¬dir agent id <+: q) : bundleFile (dir agent id) entries q = none := by
  cases hb : bundleFile (dir agent id) entries q with
  | none => rfl
  | some content =>
    obtain ⟨entry, hmem, hf, rfl⟩ := bundleFile_mem hb
    refine absurd ?_ hq
    simp [joinPath, hin entry hmem hf]

/-- Unpacking such a bundle leaves a sibling's node as it was, and a directory a
directory. -/
theorem unpackEntries_nodes {entries : List (Option TarEntry)} {n m : ℕ}
    (hin : StaysInside entries)
    (h : unpackEntries (dir agent id) n entries disk = .ok m disk') :
    (∀ p, p.length = (dir agent id).length → p ≠ dir agent id →
      nodeAt disk' p = nodeAt disk p) ∧
      ∀ q, nodeAt disk q = some .dir → nodeAt disk' q = some .dir := by
  induction entries generalizing disk n with
  | nil =>
    obtain ⟨-, rfl⟩ := pure_ok.mp h
    exact ⟨fun _ _ _ => rfl, fun _ hq => hq⟩
  | cons head rest ih =>
    have hrest : StaysInside rest := fun e he => hin e (List.mem_cons_of_mem _ he)
    cases head with
    | none => simp [unpackEntries] at h
    | some entry =>
      obtain ⟨-, hskip | ⟨buf, made, written, hf, -, hmade, hwritten, hgo⟩⟩ :=
        unpackEntries_cons h
      · exact ih hrest hskip.2
      · obtain ⟨hsib, hdirs⟩ := ih hrest hgo
        obtain ⟨names, hnames⟩ :
            ∃ names, joinPath (dir agent id) entry = dir agent id ++ names := by
          simp [joinPath, hin entry List.mem_cons_self hf]
        refine ⟨fun p hl hne => ?_, fun q hq => ?_⟩
        · have hout (tail : Path) : p ≠ dir agent id ++ tail := by
            have := append_ne_of_length hl hne [] tail
            rwa [List.append_nil] at this
          have hpre : ¬p <+: [] ++ (joinPath (dir agent id) entry).dropLast := by
            rw [List.nil_append]
            rintro ⟨tail, htail⟩
            have hlong : p <+: dir agent id ++ names :=
              hnames ▸ List.IsPrefix.trans ⟨tail, htail⟩ (List.dropLast_prefix _)
            obtain ⟨tail', htail'⟩ := hlong
            exact append_ne_of_length hl hne tail' names htail'
          rw [hsib p hl hne, writeFile_elsewhere hwritten (hnames ▸ hout names),
            createDirs_elsewhere hmade hpre]
        · have hmid := createDirs_keeps_dir hmade hq
          refine hdirs q ?_
          have hne : q ≠ [] ∨ q = [] := (em (q = [])).symm
          rcases hne with hne | rfl
          · rw [← isDir_iff hne, writeFile_isDir hwritten, isDir_iff hne]
            exact hmid
          · rw [writeFile_elsewhere hwritten, hmid]
            rw [hnames]
            intro hnil
            exact absurd hnil.symm (by simp [dir_ne_nil])

/-- Setting aside leaves the directory of profiles. -/
theorem setAside_parent {u : Unit} (hrun : setAside agent id disk = .ok u disk') :
    isDir disk' (agent.dataDir ++ ["profiles"]) = isDir disk (agent.dataDir ++ ["profiles"]) := by
  unfold setAside clear at hrun
  simp only [bind_ok, io_ok, tryIo_ok, Option.getD_some] at hrun
  obtain ⟨_, moved, hmoved, _, cleared, rfl, rfl⟩ := hrun
  rw [removeFile_isDir, removeFile_isDir]
  refine isDir_congr (renameDir_elsewhere hmoved ?_ ?_)
  · intro h
    have hlen := h.length_le
    simp [dir, profileDir] at hlen
  · intro h
    have hlen := h.length_le
    simp [asidePath, besideProfileDir] at hlen

/-- Unpacking a bundle that stays inside lays its files over the slot's. -/
theorem unpack_represents (h : Represents agent id disk s) {lib : SealLibrary} {sealed : Bytes}
    {wrapped : String} {sealer : Sealer} {entries : List (Option TarEntry)} {n : ℕ}
    (ho : openBundle lib sealed wrapped sealer = .ok entries) (hin : StaysInside entries)
    (hrun : unpack lib sealed wrapped sealer (dir agent id) disk = .ok n disk') :
    Represents agent id disk' (s.unpack overFiles (bundleFiles agent id entries)) := by
  obtain ⟨entries', made, ho', hmade, hgo, hfiles⟩ := unpack_ok hrun
  cases ho.symm.trans ho'
  obtain ⟨hsib, hdirs⟩ := unpackEntries_nodes hin hgo
  have hout (q : Path) (hq : ¬dir agent id <+: q) : fileAt disk' q = fileAt disk q := by
    rw [hfiles q, bundleFile_outside hin hq, Option.orElse_none]
  have hnode (p : Path) (hl : p.length = (dir agent id).length) (hne : p ≠ dir agent id) :
      isDir disk' p = isDir disk p := by
    refine isDir_congr ((hsib p hl hne).trans (createDirs_elsewhere hmade ?_))
    rw [List.nil_append]
    rintro ⟨rest, hrest⟩
    exact append_ne_of_length hl hne rest [] (by rw [hrest, List.append_nil])
  have hbeside (ext : String) : besideProfileDir agent.dataDir id ext ≠ dir agent id := fun heq =>
    besideProfileDir_outside agent.dataDir id ext ⟨[], by rw [List.append_nil]; exact heq.symm⟩
  refine ⟨?_, fun rel hsync => ?_, ?_, ?_, ?_, ?_, ?_⟩
  · have hmake : nodeAt made ([] ++ dir agent id) = some .dir := createDirs_makes hmade dir_ne_nil
    rw [List.nil_append] at hmake
    exact (isDir_iff dir_ne_nil).mpr (hdirs _ hmake)
  · have hold := h.files rel hsync
    rw [hfiles, hold]
    cases hd : s.dir <;> simp [Slot.unpack, Slot.overlaid, hd, overFiles, bundleFiles]
  · rw [recordedVersion_congr (hout _ (besideProfileDir_outside _ _ _))]
    exact h.version
  · rw [base_congr (hout _ (besideProfileDir_outside _ _ _))]
    exact h.unsynced
  · intro c hc
    obtain ⟨p, hp, hpfiles⟩ := h.aside c hc
    refine ⟨p, hp, fun rel content hsync hrel => ?_⟩
    rw [hout _ (beside_not_inside hp.1 hp.2.1 rel)]
    exact hpfiles rel content hsync hrel
  · exact (hnode _ (beside_length "version") (hbeside _)).trans h.heldFree
  · exact (hnode _ (beside_length "unsynced.json") (hbeside _)).trans h.markerFree

/-- Unpacking leaves the directory of profiles. -/
theorem unpack_parent {lib : SealLibrary} {sealed : Bytes} {wrapped : String} {sealer : Sealer}
    {entries : List (Option TarEntry)} {n : ℕ}
    (ho : openBundle lib sealed wrapped sealer = .ok entries) (hin : StaysInside entries)
    (hrun : unpack lib sealed wrapped sealer (dir agent id) disk = .ok n disk')
    (hparent : isDir disk (agent.dataDir ++ ["profiles"]) = true) :
    isDir disk' (agent.dataDir ++ ["profiles"]) = true := by
  obtain ⟨entries', made, ho', hmade, hgo, -⟩ := unpack_ok hrun
  cases ho.symm.trans ho'
  have hne : agent.dataDir ++ ["profiles"] ≠ [] := by simp
  rw [isDir_iff hne] at hparent ⊢
  exact (unpackEntries_nodes hin hgo).2 _ (createDirs_keeps_dir hmade hparent)

end Copies

section Launch

variable {agent : Agent} {request : LaunchRequest} {disk disk' : Disk} {s : Slot Files}

/-- A slot's answer is what the server's answer says once its bundle is opened. -/
def AnswerOf (agent : Agent) (request : LaunchRequest) : Fetched → Answer Files → Prop
  | .unchanged v, .unchanged v' => v = v'
  | .nothing, .nothing => True
  | .bundle bytes wrapped v, .bundle files v' => v = v' ∧
    ∀ entries, openBundle agent.lib bytes wrapped (launchSealer agent request) = .ok entries →
      files = bundleFiles agent request.id entries
  | _, _ => False

/-- Every bundle a fetch may bring opens to files that stay inside. -/
def BundlesStayInside (agent : Agent) (request : LaunchRequest) : Prop :=
  ∀ server holding bytes wrapped version entries, request.server = some server →
    fetchBundle server holding = .ok (.bundle bytes wrapped version) →
    openBundle agent.lib bytes wrapped (launchSealer agent request) = .ok entries →
      StaysInside entries

theorem parseI32_range {text : String} {v : ℤ} (h : parseI32 text = some v) :
    -2147483648 ≤ v ∧ v ≤ 2147483647 := by
  unfold parseI32 at h
  dsimp only at h
  split at h
  · cases h
  · split at h
    next hr =>
      cases h
      exact hr
    · cases h

/-- The version of a fetched bundle fits the file it is recorded in. -/
theorem fetchBundle_range {server : Server} {holding : Option ℤ} {bytes : Bytes}
    {wrapped : String} {version : ℤ}
    (h : fetchBundle server holding = .ok (.bundle bytes wrapped version)) :
    -2147483648 ≤ version ∧ version ≤ 2147483647 := by
  have received (res : Response)
      (hr : fetchBundle.received res = .ok (.bundle bytes wrapped version)) :
      -2147483648 ≤ version ∧ version ≤ 2147483647 := by
    unfold fetchBundle.received at hr
    split at hr
    · cases hr
    · split at hr
      · cases hr
      · split at hr
        · cases hr
        · cases hv : res.version.bind parseI32 with
          | none =>
            simp only [hv, Option.getD_none, Except.ok.injEq, Fetched.bundle.injEq] at hr
            omega
          | some v =>
            simp only [hv, Option.getD_some, Except.ok.injEq, Fetched.bundle.injEq] at hr
            obtain ⟨text, -, htext⟩ := Option.bind_eq_some_iff.mp hv
            exact hr.2.2 ▸ parseI32_range htext
  unfold fetchBundle at h
  split at h
  · cases h
  · split at h
    · cases h
    · split at h
      · split at h
        · cases h
        · exact received _ h
      · exact received _ h

/-- Asking for the held version reads the slot's. -/
theorem held_represents (h : Represents agent request.id disk s) :
    held agent request.id disk = s.held := by
  unfold held Slot.held
  rw [h.present, h.version]

/-- Unpacking the pulled bundle and recording its version does so to the slot. -/
theorem unpackPulled_represents (h : Represents agent request.id disk s)
    (hparent : isDir disk (agent.dataDir ++ ["profiles"]) = true) {bytes : Bytes}
    {wrapped : String} {version : ℤ} {u : Unit}
    (hrange : -2147483648 ≤ version ∧ version ≤ 2147483647)
    (hin : ∀ entries, openBundle agent.lib bytes wrapped (launchSealer agent request) =
      .ok entries → StaysInside entries)
    (hrun : unpackPulled agent request bytes wrapped version disk = .ok u disk') :
    ∃ entries, openBundle agent.lib bytes wrapped (launchSealer agent request) = .ok entries ∧
      Represents agent request.id disk'
        ((s.unpack overFiles (bundleFiles agent request.id entries)).recordHeld version) := by
  unfold unpackPulled at hrun
  obtain ⟨n, after, hunpack, hrecord⟩ := bind_ok.mp hrun
  obtain ⟨entries, _, ho, -, -, -⟩ := unpack_ok hunpack
  exact ⟨entries, ho, recordHeld_represents (unpack_represents h ho (hin _ ho) hunpack)
    (unpack_parent ho (hin _ ho) hunpack hparent) hrange.1 hrange.2 hrecord⟩

/-- What a launch does to the disk with the server's answer, it does to the slot. -/
theorem applyFetched_represents (h : Represents agent request.id disk s)
    (hparent : isDir disk (agent.dataDir ++ ["profiles"]) = true)
    (hdir : s.dir.isSome = true) {fetched : Fetched} {version : ℤ}
    (hrange : ∀ bytes wrapped v, fetched = .bundle bytes wrapped v →
      -2147483648 ≤ v ∧ v ≤ 2147483647)
    (hin : ∀ bytes wrapped v entries, fetched = .bundle bytes wrapped v →
      openBundle agent.lib bytes wrapped (launchSealer agent request) = .ok entries →
        StaysInside entries)
    (hrun : applyFetched agent request fetched disk = .ok version disk') :
    ∃ answer s', AnswerOf agent request fetched answer ∧ s.pull overFiles answer = (s', version) ∧
      Represents agent request.id disk' s' := by
  unfold applyFetched at hrun
  cases fetched with
  | unchanged v =>
    cases hrun
    exact ⟨.unchanged version, s, rfl, rfl, h⟩
  | nothing =>
    cases hrun
    exact ⟨.nothing, s, trivial, rfl, h⟩
  | bundle bytes wrapped v =>
    -- An unopened bundle stands for no files; it is not unpacked.
    let opened : Files := match openBundle agent.lib bytes wrapped (launchSealer agent request) with
      | .ok entries => bundleFiles agent request.id entries
      | .error _ => fun _ => none
    have hopened (entries : List (Option TarEntry))
        (ho : openBundle agent.lib bytes wrapped (launchSealer agent request) = .ok entries) :
        opened = bundleFiles agent request.id entries := by simp [opened, ho]
    have kept (ht : s.unpackTarget v = none)
        (hsame : v = version ∧ disk = disk') :
        ∃ answer s', AnswerOf agent request (.bundle bytes wrapped v) answer ∧
          s.pull overFiles answer = (s', version) ∧ Represents agent request.id disk' s' := by
      obtain ⟨rfl, rfl⟩ := hsame
      exact ⟨.bundle opened v, s, ⟨rfl, hopened⟩, by simp [Slot.pull, ht], h⟩
    rw [held_represents h, h.unsynced] at hrun
    by_cases hh : s.held = some v
    · exact kept (by simp [Slot.unpackTarget, hh]) (by simpa [hh] using hrun)
    · cases hd : decidePull s.unsynced v with
      | keepLocal =>
        exact kept (by simp [Slot.unpackTarget, hh, hd]) (by simpa [hh, hd] using hrun)
      | unpack =>
        have ht : s.unpackTarget v = some s := by simp [Slot.unpackTarget, hh, hd]
        simp only [if_neg hh, hd] at hrun
        obtain ⟨_, after, hpulled, hpure⟩ := bind_ok.mp hrun
        obtain ⟨rfl, rfl⟩ := pure_ok.mp hpure
        obtain ⟨entries, ho, hrep⟩ := unpackPulled_represents h hparent
          (hrange _ _ _ rfl) (fun e => hin _ _ _ e rfl) hpulled
        refine ⟨.bundle opened v, _, ⟨rfl, hopened⟩, (by simp only [Slot.pull, ht]; rfl), ?_⟩
        rw [hopened entries ho]
        exact hrep
      | setAsideThenUnpack =>
        obtain ⟨files, hfiles⟩ := Option.isSome_iff_exists.mp hdir
        have ht : s.unpackTarget v = some ⟨none, none, none, files :: s.aside⟩ := by
          simp [Slot.unpackTarget, hh, hd, Slot.setAside, hfiles]
        simp only [if_neg hh, hd] at hrun
        obtain ⟨_, target, haside, hrest⟩ := bind_ok.mp hrun
        obtain ⟨_, after, hpulled, hpure⟩ := bind_ok.mp hrest
        obtain ⟨rfl, rfl⟩ := pure_ok.mp hpure
        have hmoved := setAside_represents h hfiles haside
        obtain ⟨entries, ho, hrep⟩ := unpackPulled_represents hmoved
          ((setAside_parent haside).trans hparent) (hrange _ _ _ rfl)
          (fun e => hin _ _ _ e rfl) hpulled
        refine ⟨.bundle opened v, _, ⟨rfl, hopened⟩, (by simp only [Slot.pull, ht]; rfl), ?_⟩
        rw [hopened entries ho]
        exact hrep

/-- Removing the stale port file changes no synchronised file. -/
theorem removePort_represents (h : Represents agent request.id disk s) :
    Represents agent request.id (removeFile disk (devToolsPort agent request)) s := by
  have hsame (q : Path) (hq : q ≠ devToolsPort agent request) :
      fileAt (removeFile disk (devToolsPort agent request)) q = fileAt disk q := by
    rw [removeFile_fileAt, if_neg hq]
  have hport : dir agent request.id <+: devToolsPort agent request := List.prefix_append _ _
  refine ⟨?_, fun rel hsync => ?_, ?_, ?_, ?_, ?_, ?_⟩
  · rw [removeFile_isDir]
    exact h.present
  · rw [hsame]
    · exact h.files rel hsync
    · intro heq
      obtain rfl := List.append_cancel_left heq
      exact absurd hsync (by decide)
  · rw [recordedVersion_congr (hsame _ (heldPath_ne hport).symm)]
    exact h.version
  · rw [base_congr (hsame _ (markerPath_ne hport).symm)]
    exact h.unsynced
  · intro c hc
    obtain ⟨p, hp, hfiles⟩ := h.aside c hc
    refine ⟨p, hp, fun rel content hsync hrel => ?_⟩
    rw [hsame]
    · exact hfiles rel content hsync hrel
    · exact append_ne_of_length hp.1 hp.2.1 rel _
  · rw [removeFile_isDir]
    exact h.heldFree
  · rw [removeFile_isDir]
    exact h.markerFree

/-- Making the profile directory makes the slot's. -/
theorem createDirAll_represents (h : Represents agent request.id disk s)
    (hmade : createDirAll disk (dir agent request.id) = some disk') :
    Represents agent request.id disk' (s.createDir fun _ => none) := by
  have hsame := createDirAll_fileAt hmade
  have hnode (ext : String) : isDir disk' (besideProfileDir agent.dataDir request.id ext) =
      isDir disk (besideProfileDir agent.dataDir request.id ext) := by
    refine isDir_congr (createDirs_elsewhere hmade ?_)
    rw [List.nil_append]
    intro hpre
    have heq := List.IsPrefix.eq_of_length hpre (beside_length ext)
    exact besideProfileDir_outside agent.dataDir request.id ext
      ⟨[], by rw [List.append_nil]; exact heq.symm⟩
  refine ⟨?_, fun rel hsync => ?_, ?_, ?_, ?_, ?_, ?_⟩
  · have hmake : nodeAt disk' ([] ++ dir agent request.id) = some .dir :=
      createDirs_makes hmade dir_ne_nil
    rw [List.nil_append] at hmake
    exact (isDir_iff dir_ne_nil).mpr hmake
  · rw [hsame]
    exact h.files rel hsync
  · rw [recordedVersion_congr (hsame _)]
    exact h.version
  · rw [base_congr (hsame _)]
    exact h.unsynced
  · intro c hc
    obtain ⟨p, hp, hfiles⟩ := h.aside c hc
    exact ⟨p, hp, fun rel content hsync hrel => by rw [hsame, hfiles rel content hsync hrel]⟩
  · exact (hnode "version").trans h.heldFree
  · exact (hnode "unsynced.json").trans h.markerFree

/-- A launch against a server does to the disk what making the directory and
pulling do to the slot. -/
theorem launch_refines (h : Represents agent request.id disk s)
    (hin : BundlesStayInside agent request) {server : Server}
    (hserver : request.server = some server) {r : Launched}
    (hrun : launch agent request disk = .ok r disk') :
    ∃ fetched answer s',
      fetchBundle server (s.createDir fun _ => none).held = .ok fetched ∧
        AnswerOf agent request fetched answer ∧
        (s.createDir fun _ => none).pull overFiles answer = (s', r.pulledVersion) ∧
        Represents agent request.id disk' s' := by
  obtain ⟨ready, ⟨made, hmade, rfl, -⟩, hpull, -, -⟩ := launch_ok.mp hrun
  have hready := removePort_represents (createDirAll_represents h hmade)
  have hparent : isDir (removeFile made (devToolsPort agent request))
      (agent.dataDir ++ ["profiles"]) = true := by
    rw [removeFile_isDir]
    rw [dir_eq] at hmade
    exact createDirAll_parent hmade
  unfold pull at hpull
  simp only [hserver] at hpull
  cases hf : fetchBundle server (held agent request.id
      (removeFile made (devToolsPort agent request))) with
  | error e => simp [hf] at hpull
  | ok fetched =>
    simp only [hf] at hpull
    obtain ⟨version, applied, happly, htidy⟩ := bind_ok.mp hpull
    simp only [bind_ok, tryIo_ok, pure_ok, Option.getD_some] at htidy
    obtain ⟨_, _, rfl, hv, rfl⟩ := htidy
    obtain ⟨answer, s', hanswer, hslot, hrep⟩ := applyFetched_represents hready hparent rfl
      (fun _ _ _ hb => fetchBundle_range (hb ▸ hf))
      (fun _ _ _ entries hb ho => hin _ _ _ _ _ entries hserver (hb ▸ hf) ho) happly
    rw [held_represents hready] at hf
    exact ⟨fetched, answer, s', hf, hanswer, hv ▸ hslot, removePort_represents hrep⟩

end Launch

section Sample

/-- The sample library has one archive, and its file is named by a relative path. -/
theorem sample_staysInside {bytes : Bytes} {wrapped : String} {sealer : Sealer}
    {entries : List (Option TarEntry)}
    (h : openBundle sampleLibrary bytes wrapped sealer = .ok entries) : StaysInside entries := by
  obtain ⟨compressed, harchive⟩ : ∃ compressed, sampleLibrary.readArchive compressed =
      some entries := by
    unfold openBundle at h
    dsimp only at h
    repeat' split at h
    all_goals cases h
    exact ⟨_, by assumption⟩
  change (if compressed = sampleCompressed then some [some sampleEntry] else none) =
    some entries at harchive
  split at harchive
  · cases harchive
    intro entry hin _
    cases List.mem_singleton.mp hin
    rfl
  · cases harchive

/-- Nothing is on the disk, and the slot is empty. -/
theorem sample_represents :
    Represents sampleAgent (sampleRequest none "1").id [] ⟨none, none, none, []⟩ where
  present := rfl
  files _ _ := rfl
  version := by decide
  unsynced := by decide
  aside _ h := nomatch h
  heldFree := by decide
  markerFree := by decide

/-- The sample profile is launched on an empty disk. -/
theorem launch_refines_first : ∃ r disk' fetched answer s',
    launch sampleAgent (sampleRequest none "1") [] = .ok r disk' ∧
      AnswerOf sampleAgent (sampleRequest none "1") fetched answer ∧
      ((⟨none, none, none, []⟩ : Slot Files).createDir fun _ => none).pull overFiles answer =
        (s', r.pulledVersion) ∧
      Represents sampleAgent (sampleRequest none "1").id disk' s' := by
  have hs : succeeds (launch sampleAgent (sampleRequest none "1")) [] = true := by decide +kernel
  obtain ⟨r, disk', hrun⟩ := succeeds_iff.mp hs
  have hin : BundlesStayInside sampleAgent (sampleRequest none "1") :=
    fun _ _ _ _ _ _ _ _ h => sample_staysInside h
  obtain ⟨server, hserver⟩ : ∃ server, (sampleRequest none "1").server = some server := ⟨_, rfl⟩
  obtain ⟨fetched, answer, s', -, hanswer, hpull, hrep⟩ :=
    launch_refines sample_represents hin hserver hrun
  exact ⟨r, disk', fetched, answer, s', hrun, hanswer, hpull, hrep⟩

end Sample

end FuryBrowser.SlotOnDisk
