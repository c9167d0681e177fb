import FuryBrowser.BundleUnpack

/-!
# Where an unpacked bundle may write

Unpacking refuses an entry whose path has `..` in it, and joins every other
path to the destination. An absolute path replaces the destination in the join,
so the entry is written wherever it says.

What an unpack leaves is compared with the disk it found, also when it stops
half-way. The destination itself is made with its missing parents first; beyond
these, everything that appears or changes should be inside the destination.
-/

namespace FuryBrowser.UnpackContained

open PathTree AgentDisk BundleUnpack

/-- The disk an operation leaves, whether it succeeds or stops. -/
def leaves {α : Type} (x : DiskOp α) (disk : Disk) : Disk :=
  match x disk with
  | .ok _ after => after
  | .error _ after => after

/-- Everything that differs lies inside the destination, or is a missing
directory above it that was made. -/
def Inside (dest : Path) (before after : Disk) : Prop :=
  ∀ q, nodeAt after q ≠ nodeAt before q →
    dest <+: q ∨ (q <+: dest ∧ nodeAt before q = none ∧ nodeAt after q = some .dir)

/-- A file can be written at a path after some others: none of them stands above
it, it stands above none of them, and it is not on the way to the destination. -/
def Free (dest : Path) (files : List Path) (p : Path) : Prop :=
  (∀ f ∈ files, f <+: p → f = p) ∧ (∀ f ∈ files, p <+: f → p = f) ∧ ¬p <+: dest

/-- An entry's file lies inside the destination, or names the destination or a
directory above it, where nothing is written; or it has no bytes to write, and
its directory is on the way to the destination. -/
def StaysIn (dest : Path) (entry : TarEntry) : Prop :=
  dest <+: joinPath dest entry ∨ joinPath dest entry <+: dest ∨
    (entry.content = none ∧ (joinPath dest entry).dropLast <+: dest)

/-- Every file the loop comes to stays in: up to the first entry that cannot be
read or has `..` in its path, and past no file that cannot be written. -/
def Contained (dest : Path) (files : List Path) : List (Option TarEntry) → Prop
  | [] => True
  | none :: _ => True
  | some entry :: rest =>
    .parentDir ∉ entry.components →
      (entry.isFile = false → Contained dest files rest) ∧
      (entry.isFile = true → StaysIn dest entry ∧
        (entry.content.isSome → Free dest files (joinPath dest entry) →
          Contained dest (joinPath dest entry :: files) rest))

section Leaves

variable {α β : Type} {f : Disk → Option Disk} {g : Unit → DiskOp β} {disk : Disk}
variable {dest : Path} {entry : TarEntry} {rest : List (Option TarEntry)} {n : ℕ}

theorem leaves_io : leaves (io f >>= g) disk =
    match f disk with
    | some mid => leaves (g ()) mid
    | none => disk := by
  unfold leaves
  change (match EStateM.bind (io f) g disk with
    | .ok _ after => after
    | .error _ after => after) = _
  unfold EStateM.bind io
  cases f disk <;> rfl

theorem leaves_refused (h : .parentDir ∈ entry.components) :
    leaves (unpackEntries dest n (some entry :: rest)) disk = disk := by
  unfold unpackEntries
  rw [if_pos h]
  rfl

theorem leaves_skipped (h : .parentDir ∉ entry.components) (hf : entry.isFile = false) :
    leaves (unpackEntries dest n (some entry :: rest)) disk =
      leaves (unpackEntries dest n rest) disk := by
  rw [unpackEntries, if_neg h]
  simp only [hf, Bool.not_false, if_true]

/-- A file: its directory is made, its bytes are written, and the rest follows;
where one of these fails the loop stops. -/
theorem leaves_file (h : .parentDir ∉ entry.components) (hf : entry.isFile = true) :
    leaves (unpackEntries dest n (some entry :: rest)) disk =
      match createDirAll disk (joinPath dest entry).dropLast with
      | none => disk
      | some made =>
        match entry.content.bind fun buf => writeFile made (joinPath dest entry) buf with
        | none => made
        | some written => leaves (unpackEntries dest (n + 1) rest) written := by
  rw [unpackEntries, if_neg h]
  simp only [hf, Bool.not_true, Bool.false_eq_true, if_false]
  change leaves (io (fun d => createDirAll d (joinPath dest entry).dropLast) >>= _) disk = _
  rw [leaves_io]
  cases createDirAll disk (joinPath dest entry).dropLast with
  | none => rfl
  | some made =>
    cases entry.content with
    | none => rfl
    | some buf =>
      change leaves (io (fun d => writeFile d (joinPath dest entry) buf) >>= _) made = _
      rw [leaves_io]
      cases hw : writeFile made (joinPath dest entry) buf <;> simp [hw]

theorem leaves_keeps (entries : List (Option TarEntry)) (n : ℕ) {q : Path}
    (h : nodeAt disk q ≠ none) :
    nodeAt (leaves (unpackEntries dest n entries) disk) q ≠ none := by
  induction entries generalizing disk n with
  | nil => exact h
  | cons head rest ih =>
    cases head with
    | none => exact h
    | some entry =>
      by_cases hp : Component.parentDir ∈ entry.components
      · rw [leaves_refused hp]
        exact h
      · cases hf : entry.isFile with
        | false =>
          rw [leaves_skipped hp hf]
          exact ih n h
        | true =>
          rw [leaves_file hp hf]
          cases hm : createDirAll disk (joinPath dest entry).dropLast with
          | none => exact h
          | some made =>
            have hmade : nodeAt made q ≠ none := by
              rw [createDirAll_nodeAt hm]
              split_ifs
              · simp
              · exact h
            dsimp only
            cases hc : entry.content.bind fun buf => writeFile made (joinPath dest entry) buf with
            | none => exact hmade
            | some written =>
              obtain ⟨buf, -, hwritten⟩ := Option.bind_eq_some_iff.mp hc
              refine ih (n + 1) ?_
              rw [writeFile_nodeAt hwritten]
              split_ifs
              · simp
              · exact hmade

end Leaves

section Holding

variable {dest p : Path} {files : List Path} {before disk mid after : Disk} {buf : Bytes}

/-- A path above another is at or above its directory. -/
theorem prefix_dropLast {q p : Path} (h : q <+: p) (hne : q ≠ p) : q <+: p.dropLast := by
  obtain ⟨rest, rfl⟩ := h
  have hrest : rest ≠ [] := by
    rintro rfl
    exact hne (List.append_nil q).symm
  rw [List.dropLast_append_of_ne_nil hrest]
  exact List.prefix_append _ _

theorem isDir_of_dir {q : Path} (h : nodeAt disk q = some .dir) : isDir disk q = true := by
  cases q with
  | nil => rfl
  | cons name rest => simp [isDir, h]

/-- What holds on the way through the loop: everything so far is inside, the
way to the destination stands, and so do the files written and the directories
above them. -/
structure Held (dest : Path) (files : List Path) (before disk : Disk) : Prop where
  /-- Nothing outside differs. -/
  inside : Inside dest before disk
  /-- The destination and what is above it are directories. -/
  way : ∀ q, q <+: dest → q ≠ [] → nodeAt disk q = some .dir
  /-- The files written are files. -/
  standing : ∀ f ∈ files, f ≠ [] ∧ ∃ content, nodeAt disk f = some (.file content)
  /-- What is above them is a directory. -/
  above : ∀ f ∈ files, ∀ q, q <+: f → q ≠ f → q ≠ [] → nodeAt disk q = some .dir

/-- Making a directory at or below the destination, or on the way to it. -/
theorem Held.make (h : Held dest files before disk) (hm : createDirAll disk p = some mid)
    (hp : ∀ q, q <+: p → dest <+: q ∨ q <+: dest) : Held dest files before mid := by
  have hdir (q : Path) (hq : nodeAt disk q = some .dir) : nodeAt mid q = some .dir := by
    rw [createDirAll_nodeAt hm, hq, ite_self]
  refine ⟨fun q hq => ?_, fun q hq hne => hdir q (h.way q hq hne), fun f hf => ?_,
    fun f hf q hq hne hroot => hdir q (h.above f hf q hq hne hroot)⟩
  · have hnode := createDirAll_nodeAt hm q
    split_ifs at hnode with hon
    · rcases hp q hon.2 with hin | hway
      · exact .inl hin
      · have hsame : nodeAt mid q = nodeAt disk q := hnode.trans (h.way q hway hon.1).symm
        rw [hsame] at hq ⊢
        exact h.inside q hq
    · rw [hnode] at hq ⊢
      exact h.inside q hq
  · obtain ⟨hne, content, hcontent⟩ := h.standing f hf
    refine ⟨hne, content, ?_⟩
    rw [createDirAll_nodeAt hm, if_neg, hcontent]
    rintro ⟨-, hon⟩
    have hnone := createDirAll_no_file hm hon hne
    simp [fileAt, hcontent] at hnone

/-- A file is written where it is free to be. -/
theorem Held.free (h : Held dest files before mid)
    (hdirs : ∀ q, q <+: p.dropLast → q ≠ [] → nodeAt mid q = some .dir)
    (hw : writeFile mid p buf = some after) : Free dest files p := by
  have hnot := writeFile_not_dir hw
  have hroot : p ≠ [] := by
    rintro rfl
    cases hnot
  refine ⟨fun f hf hpre => ?_, fun f hf hpre => ?_, fun hpre => ?_⟩
  · by_contra hne
    obtain ⟨hfne, content, hcontent⟩ := h.standing f hf
    rw [hdirs f (prefix_dropLast hpre hne) hfne] at hcontent
    cases hcontent
  · by_contra hne
    rw [isDir_of_dir (h.above f hf p hpre hne hroot)] at hnot
    cases hnot
  · rw [isDir_of_dir (h.way p hpre hroot)] at hnot
    cases hnot

/-- Writing a file inside the destination, its directory being there. -/
theorem Held.write (h : Held dest files before mid) (hp : dest <+: p)
    (hdirs : ∀ q, q <+: p.dropLast → q ≠ [] → nodeAt mid q = some .dir)
    (hw : writeFile mid p buf = some after) : Held dest (p :: files) before after := by
  have hnot := writeFile_not_dir hw
  have hroot : p ≠ [] := by
    rintro rfl
    cases hnot
  have hdir (q : Path) (hq : nodeAt mid q = some .dir) : nodeAt after q = some .dir := by
    rw [writeFile_nodeAt hw, if_neg, hq]
    rintro rfl
    rw [isDir_of_dir hq] at hnot
    cases hnot
  refine ⟨fun q hq => ?_, fun q hq hne => hdir q (h.way q hq hne), fun f hf => ?_,
    fun f hf q hq hne hqroot => ?_⟩
  · have hnode := writeFile_nodeAt hw q
    split_ifs at hnode with heq
    · exact .inl (heq ▸ hp)
    · rw [hnode] at hq ⊢
      exact h.inside q hq
  · by_cases heq : f = p
    · exact ⟨heq ▸ hroot, buf, by rw [writeFile_nodeAt hw, if_pos heq]⟩
    · obtain ⟨hne, content, hcontent⟩ := h.standing f ((List.mem_cons.mp hf).resolve_left heq)
      exact ⟨hne, content, by rw [writeFile_nodeAt hw, if_neg heq, hcontent]⟩
  · rcases List.mem_cons.mp hf with rfl | hf
    · exact hdir q (hdirs q (prefix_dropLast hq hne) hqroot)
    · exact hdir q (h.above f hf q hq hne hqroot)

/-- What is at or above something inside the destination is inside it, or on the
way to it. -/
theorem comparable {q : Path} (hq : q <+: p) (hp : dest <+: p ∨ p <+: dest) :
    dest <+: q ∨ q <+: dest := by
  rcases hp with hin | hway
  · exact List.prefix_or_prefix_of_prefix hin hq
  · exact .inr (hq.trans hway)

/-- The loop writes inside the destination whatever it finds there. -/
theorem leaves_inside (entries : List (Option TarEntry)) (n : ℕ)
    (h : Held dest files before disk) (hc : Contained dest files entries) :
    Inside dest before (leaves (unpackEntries dest n entries) disk) := by
  induction entries generalizing disk files n with
  | nil => exact h.inside
  | cons head rest ih =>
    cases head with
    | none => exact h.inside
    | some entry =>
      by_cases hp : Component.parentDir ∈ entry.components
      · rw [leaves_refused hp]
        exact h.inside
      · obtain ⟨hskip, hfile⟩ := hc hp
        cases hf : entry.isFile with
        | false =>
          rw [leaves_skipped hp hf]
          exact ih n h (hskip hf)
        | true =>
          obtain ⟨hstays, hrest⟩ := hfile hf
          rw [leaves_file hp hf]
          cases hm : createDirAll disk (joinPath dest entry).dropLast with
          | none => exact h.inside
          | some made =>
            have hway (q : Path) (hq : q <+: (joinPath dest entry).dropLast) :
                dest <+: q ∨ q <+: dest := by
              rcases hstays with hin | hon | ⟨-, hon⟩
              · exact comparable (hq.trans (List.dropLast_prefix _)) (.inl hin)
              · exact comparable (hq.trans (List.dropLast_prefix _)) (.inr hon)
              · exact .inr (hq.trans hon)
            have hmade := h.make hm hway
            dsimp only
            cases hwr : entry.content.bind fun buf => writeFile made (joinPath dest entry) buf with
            | none => exact hmade.inside
            | some written =>
              obtain ⟨buf, hbuf, hwritten⟩ := Option.bind_eq_some_iff.mp hwr
              have hdirs (q : Path) (hq : q <+: (joinPath dest entry).dropLast) (hne : q ≠ []) :
                  nodeAt made q = some .dir := by
                rw [createDirAll_nodeAt hm, if_pos ⟨hne, hq⟩]
              have hfree := hmade.free hdirs hwritten
              have hin : dest <+: joinPath dest entry := by
                rcases hstays with hin | hon | ⟨hnone, -⟩
                · exact hin
                · exact absurd hon hfree.2.2
                · rw [hnone] at hbuf
                  cases hbuf
              exact ih (n + 1) (hmade.write hin hdirs hwritten)
                (hrest (hbuf ▸ rfl) hfree)

end Holding

section Blank

variable {dest p : Path} {files : List Path} {disk mid after : Disk} {buf : Bytes}
variable {entry : TarEntry}

/-- A disk that had nothing before the destination was made: there are only the
way to the destination, the files written inside it, and what is above them. -/
structure Blank (dest : Path) (files : List Path) (disk : Disk) : Prop where
  /-- Every directory is on the way somewhere. -/
  dirs : ∀ q, nodeAt disk q = some .dir → q <+: dest ∨ ∃ f ∈ files, q <+: f
  /-- Every file was written. -/
  written : ∀ q content, nodeAt disk q = some (.file content) → q ∈ files
  /-- What was written is a file. -/
  standing : ∀ f ∈ files, ∃ content, nodeAt disk f = some (.file content)
  /-- It was written inside the destination. -/
  inside : ∀ f ∈ files, dest <+: f

/-- The directory of a path can be made when no file written is above the path. -/
theorem Blank.createDirAll (h : Blank dest files disk) (hp : ∀ f ∈ files, f <+: p → f = p) :
    ∃ mid, createDirAll disk p.dropLast = some mid := by
  refine Option.isSome_iff_exists.mp (createDirAll_isSome fun pre hpre hne => ?_)
  cases hn : nodeAt disk pre with
  | none => simp [fileAt, hn]
  | some node =>
    cases node with
    | dir => simp [fileAt, hn]
    | file content =>
      have heq : pre = p := hp pre (h.written pre content hn) (hpre.trans (List.dropLast_prefix _))
      subst heq
      have hlen := hpre.length_le
      have hpos := List.length_pos_of_ne_nil hne
      rw [List.length_dropLast] at hlen
      omega

/-- With its directory made, a path can be written when no file is below it and
it is not on the way to the destination. -/
theorem Blank.writeFile (h : Blank dest files disk)
    (hm : PathTree.createDirAll disk p.dropLast = some mid)
    (hbelow : ∀ f ∈ files, p <+: f → p = f) (hdest : ¬p <+: dest) (buf : Bytes) :
    ∃ after, writeFile mid p buf = some after := by
  have hroot : p ≠ [] := by
    rintro rfl
    exact hdest List.nil_prefix
  have hparent : isDir mid p.dropLast = true := by
    cases hd : p.dropLast with
    | nil => rfl
    | cons name rest =>
      rw [← hd]
      refine isDir_of_dir ?_
      rw [createDirAll_nodeAt hm, if_pos ⟨by simp [hd], List.prefix_rfl⟩]
  refine writeFile_of_parent buf hparent ?_
  rw [← Bool.not_eq_true, isDir_iff hroot, createDirAll_nodeAt hm, if_neg]
  · intro hdir
    rcases h.dirs p hdir with hway | ⟨f, hf, hpre⟩
    · exact hdest hway
    · obtain ⟨content, hcontent⟩ := h.standing f hf
      rw [← hbelow f hf hpre, hdir] at hcontent
      cases hcontent
  · rintro ⟨-, hpre⟩
    have hlen := hpre.length_le
    have hpos := List.length_pos_of_ne_nil hroot
    rw [List.length_dropLast] at hlen
    omega

/-- A file written inside the destination leaves the disk blank otherwise. -/
theorem Blank.write (h : Blank dest files disk)
    (hm : PathTree.createDirAll disk p.dropLast = some mid)
    (hw : PathTree.writeFile mid p buf = some after) (hin : dest <+: p)
    (habove : ∀ f ∈ files, f <+: p → f = p) : Blank dest (p :: files) after := by
  have hcases (q : Path) : nodeAt after q = if q = p then some (.file buf)
      else if q ≠ [] ∧ q <+: p.dropLast then some .dir else nodeAt disk q := by
    rw [writeFile_nodeAt hw, createDirAll_nodeAt hm]
  refine ⟨fun q hq => ?_, fun q content hq => ?_, fun f hf => ?_, fun f hf => ?_⟩
  · rw [hcases] at hq
    split_ifs at hq with heq hon
    · cases hq
    · exact .inr ⟨p, List.mem_cons_self, hon.2.trans (List.dropLast_prefix _)⟩
    · rcases h.dirs q hq with hway | ⟨f, hf, hpre⟩
      · exact .inl hway
      · exact .inr ⟨f, List.mem_cons_of_mem _ hf, hpre⟩
  · rw [hcases] at hq
    split_ifs at hq with heq hon
    · exact heq ▸ List.mem_cons_self
    · cases hq
    · exact List.mem_cons_of_mem _ (h.written q content hq)
  · by_cases heq : f = p
    · exact ⟨buf, by rw [hcases, if_pos heq]⟩
    · have hmem := (List.mem_cons.mp hf).resolve_left heq
      obtain ⟨content, hcontent⟩ := h.standing f hmem
      refine ⟨content, ?_⟩
      rw [hcases, if_neg heq, if_neg, hcontent]
      exact fun hon => heq (habove f hmem (hon.2.trans (List.dropLast_prefix _)))
  · rcases List.mem_cons.mp hf with rfl | hf
    · exact hin
    · exact h.inside f hf

/-- On a blank disk, a file that does not stay in appears outside. -/
theorem Blank.staysIn (h : Blank dest files disk) (hp : .parentDir ∉ entry.components)
    (hf : entry.isFile = true) {rest : List (Option TarEntry)} {n : ℕ}
    (hinside : Inside dest [] (leaves (unpackEntries dest n (some entry :: rest)) disk)) :
    StaysIn dest entry := by
  by_contra hout
  unfold StaysIn at hout
  rw [not_or, not_or] at hout
  obtain ⟨hin, hway, hempty⟩ := hout
  have habove : ∀ f ∈ files, f <+: joinPath dest entry → f = joinPath dest entry :=
    fun f hmem hpre => absurd ((h.inside f hmem).trans hpre) hin
  have hbelow : ∀ f ∈ files, joinPath dest entry <+: f → joinPath dest entry = f := by
    intro f hmem hpre
    rcases List.prefix_or_prefix_of_prefix (h.inside f hmem) hpre with hl | hr
    · exact absurd hl hin
    · exact absurd hr hway
  -- whatever appears at a path that the destination is not on is refused
  have hnone (q : Path) (hq1 : ¬dest <+: q) (hq2 : ¬q <+: dest) :
      nodeAt (leaves (unpackEntries dest n (some entry :: rest)) disk) q = none := by
    by_contra hne
    rcases hinside q hne with hl | hr
    · exact hq1 hl
    · exact hq2 hr.1
  rw [leaves_file hp hf] at hnone
  obtain ⟨mid, hm⟩ := h.createDirAll habove
  simp only [hm] at hnone
  cases hc : entry.content with
  | none =>
    have hdir : ¬(joinPath dest entry).dropLast <+: dest := fun hpre => hempty ⟨hc, hpre⟩
    have hroot : (joinPath dest entry).dropLast ≠ [] := by
      intro heq
      exact hdir (heq ▸ List.nil_prefix)
    have hmade := hnone _ (fun hpre => hin (hpre.trans (List.dropLast_prefix _))) hdir
    simp only [hc, Option.bind_none] at hmade
    rw [createDirAll_nodeAt hm, if_pos ⟨hroot, List.prefix_rfl⟩] at hmade
    cases hmade
  | some buf =>
    obtain ⟨after, hw⟩ := h.writeFile hm hbelow hway buf
    have hwritten := hnone _ hin hway
    simp only [hc, Option.bind_some, hw] at hwritten
    exact leaves_keeps rest (n + 1)
      (by rw [writeFile_nodeAt hw, if_pos rfl]; exact Option.some_ne_none _) hwritten

/-- If nothing appears outside on a blank disk, every file the loop comes to
stays in. -/
theorem Blank.contained (entries : List (Option TarEntry)) (n : ℕ) (h : Blank dest files disk)
    (hinside : Inside dest [] (leaves (unpackEntries dest n entries) disk)) :
    Contained dest files entries := by
  induction entries generalizing disk files n with
  | nil => exact trivial
  | cons head rest ih =>
    cases head with
    | none => exact trivial
    | some entry =>
      intro hp
      refine ⟨fun hf => ?_, fun hf => ?_⟩
      · rw [leaves_skipped hp hf] at hinside
        exact ih n h hinside
      · have hstays := h.staysIn hp hf hinside
        refine ⟨hstays, fun hsome hfree => ?_⟩
        obtain ⟨buf, hbuf⟩ := Option.isSome_iff_exists.mp hsome
        obtain ⟨habove, hbelow, hdest⟩ := hfree
        have hin : dest <+: joinPath dest entry := by
          rcases hstays with hin | hway | ⟨hnone, -⟩
          · exact hin
          · exact absurd hway hdest
          · rw [hnone] at hbuf
            cases hbuf
        obtain ⟨mid, hm⟩ := h.createDirAll habove
        obtain ⟨after, hw⟩ := h.writeFile hm hbelow hdest buf
        rw [leaves_file hp hf] at hinside
        simp only [hm, hbuf, Option.bind_some, hw] at hinside
        exact ih (n + 1) (h.write hm hw hin habove) hinside

end Blank

section Containment

variable {lib : SealLibrary} {sealed : Bytes} {wrappedKey : String} {sealer : Sealer}
variable {dest : Path} {disk : Disk}

/-- What unpacking leaves: nothing changes when the bundle does not open or the
destination cannot be made. -/
theorem leaves_unpack : leaves (unpack lib sealed wrappedKey sealer dest) disk =
    match openBundle lib sealed wrappedKey sealer with
    | .error _ => disk
    | .ok entries =>
      match createDirAll disk dest with
      | none => disk
      | some made => leaves (unpackEntries dest 0 entries) made := by
  unfold unpack
  cases openBundle lib sealed wrappedKey sealer with
  | error e => rfl
  | ok entries =>
    dsimp only
    rw [leaves_io]
    cases createDirAll disk dest <;> rfl

theorem Inside.refl (dest : Path) (disk : Disk) : Inside dest disk disk :=
  fun _ hq => absurd rfl hq

/-- With the destination made, the loop starts. -/
theorem held_of_createDirAll {made : Disk} (hm : createDirAll disk dest = some made) :
    Held dest [] disk made := by
  refine ⟨fun q hq => ?_, fun q hq hne => ?_, List.forall_mem_nil _, List.forall_mem_nil _⟩
  · have hnode := createDirAll_nodeAt hm q
    split_ifs at hnode with hon
    · right
      refine ⟨hon.2, ?_, hnode⟩
      have hfile := createDirAll_no_file hm hon.2 hon.1
      cases hn : nodeAt disk q with
      | none => rfl
      | some node =>
        cases node with
        | dir => exact absurd (hnode.trans hn.symm) hq
        | file content => simp [fileAt, hn] at hfile
    · exact absurd hnode hq
  · rw [createDirAll_nodeAt hm, if_pos ⟨hne, hq⟩]

theorem blank_of_createDirAll {made : Disk} (hm : createDirAll [] dest = some made) :
    Blank dest [] made := by
  have hcases (q : Path) := createDirAll_nodeAt hm q
  refine ⟨fun q hq => ?_, fun q content hq => ?_, List.forall_mem_nil _, List.forall_mem_nil _⟩
  · rw [hcases] at hq
    split_ifs at hq with hon
    · exact .inl hon.2
    · cases hq
  · rw [hcases] at hq
    split_ifs at hq <;> cases hq

/-- Unpacking a bundle writes inside the destination on every disk, exactly when
every file it comes to in the bundle's archive stays in. -/
theorem unpack_inside_iff (lib : SealLibrary) (sealed : Bytes) (wrappedKey : String)
    (sealer : Sealer) (dest : Path) :
    (∀ disk, Inside dest disk (leaves (unpack lib sealed wrappedKey sealer dest) disk)) ↔
      ∀ entries, openBundle lib sealed wrappedKey sealer = .ok entries →
        Contained dest [] entries := by
  constructor
  · intro h entries hopen
    have hblank := h []
    obtain ⟨made, hm⟩ := Option.isSome_iff_exists.mp
      (createDirAll_isSome (t := ([] : Disk)) (p := dest) fun _ _ _ => rfl)
    rw [leaves_unpack, hopen] at hblank
    simp only [hm] at hblank
    exact (blank_of_createDirAll hm).contained entries 0 hblank
  · intro h disk
    rw [leaves_unpack]
    cases hopen : openBundle lib sealed wrappedKey sealer with
    | error e => exact Inside.refl dest disk
    | ok entries =>
      cases hm : createDirAll disk dest with
      | none => exact Inside.refl dest disk
      | some made => exact leaves_inside entries 0 (held_of_createDirAll hm) (h entries hopen)

/-- A library whose archive has one file, at an absolute path. -/
def absoluteLibrary : SealLibrary where
  decrypt _ _ _ := some (utf8 (.ofList (List.replicate 64 '0')))
  base64Decode _ := some (List.replicate (nonceLen + 1) 0)
  readArchive _ := some
    [some ⟨true, [.normal "home", .normal "op", .normal ".profile"], true, some [1]⟩]
  subkey key _ _ := key
  keyFingerprint _ := ""

/-- A team bundle from another machine writes into the operator's home. -/
theorem absolute_escapes :
    ¬∀ (lib : SealLibrary) (sealed : Bytes) (wrappedKey : String) (sealer : Sealer) (dest : Path)
      (disk : Disk), Inside dest disk (leaves (unpack lib sealed wrappedKey sealer dest) disk) := by
  intro h
  have hsealed := h absoluteLibrary (magic ++ List.replicate nonceLen 0) sharedPrefix
    (.shared [] none) ["data", "profiles", "a"] [] ["home", "op", ".profile"]
  have hwritten : nodeAt (leaves (unpack absoluteLibrary (magic ++ List.replicate nonceLen 0)
      sharedPrefix (.shared [] none) ["data", "profiles", "a"]) []) ["home", "op", ".profile"] =
      some (.file [1]) := by
    decide
  rw [hwritten] at hsealed
  rcases hsealed (by simp) with hin | ⟨hway, -⟩
  · exact absurd hin (by decide)
  · exact absurd hway (by decide)

end Containment

end FuryBrowser.UnpackContained
