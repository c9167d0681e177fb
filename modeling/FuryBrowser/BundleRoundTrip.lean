import Mathlib.Data.List.Induction
import FuryBrowser.BundlePack
import FuryBrowser.UnpackContained

/-!
# A packed profile unpacks to its synchronised files

The walk over a profile's directory puts into the archive the files on whose
way no name is passed over. Sealing and opening undo each other under the same
sealer, and an empty directory takes every file of the archive: no file of a
directory tree stands above another.
-/

namespace FuryBrowser.BundleRoundTrip

open PathTree AgentDisk BundleUnpack BundlePack UnpackContained

/-- A name that a file system gives a file or a directory. -/
def ProperName (name : String) : Prop :=
  name ≠ "" ∧ name ≠ "." ∧ name ≠ ".." ∧ '/' ∉ name.toList ∧ '\x00' ∉ name.toList

/-- What every file system keeps: a node's parent is a directory, and its path
is made of names. The root is no node. -/
structure FileSystem (disk : Disk) : Prop where
  /-- The parent is a directory. -/
  parents : ∀ p n, nodeAt disk p = some n → isDir disk p.dropLast = true
  names : ∀ p n, nodeAt disk p = some n → p ≠ [] ∧ ∀ name ∈ p, ProperName name

/-- An archived file, as the archive reader gives it back. -/
def archived (file : Path × Bytes) : Option TarEntry :=
  some ⟨false, file.1.map .normal, true, some file.2⟩

/-- The libraries undo what they did, as documented: the cipher and its tag of
sixteen bytes, the encoding, and the archive of files with proper names. -/
structure Inverts (lib : PackLibrary) : Prop where
  /-- What was encrypted decrypts. -/
  decrypt : ∀ {key nonce plain sealed}, lib.encrypt key nonce plain = some sealed →
    lib.decrypt key nonce sealed = some plain ∧ sealed.length = plain.length + 16
  /-- What was encoded decodes. -/
  base64 : ∀ bytes, lib.base64Decode (utf8 (lib.base64Encode bytes)) = some bytes
  /-- An archive reads back, in order. -/
  archive : ∀ files : List (Path × Bytes),
    (∀ file ∈ files, file.1 ≠ [] ∧ ∀ name ∈ file.1, ProperName name) →
      lib.readArchive (lib.writeArchive files) = some (files.map archived)

section Walk

variable {disk : Disk} {root below p q : Path} {name : String} {content : Bytes} {depth : ℕ}

/-- A path with a node is an entry of the disk. -/
theorem mem_of_nodeAt {n : Node Bytes} (h : nodeAt disk p = some n) : (p, n) ∈ disk := by
  obtain ⟨entry, hfind, hval⟩ := Option.map_eq_some_iff.mp h
  have hpath : entry.1 = p := by simpa using List.find?_some hfind
  have hmem := List.mem_of_find?_eq_some hfind
  rw [← hpath, ← hval]
  exact hmem

/-- Every name below a directory is read from it. -/
theorem mem_readDir {n : Node Bytes} (h : nodeAt disk (p ++ [name]) = some n) :
    name ∈ readDir disk p := by
  unfold readDir
  rw [List.mem_dedup]
  refine List.mem_filterMap.mpr ⟨_, mem_of_nodeAt h, ?_⟩
  simp

theorem fileAt_eq_some : fileAt disk p = some content ↔
    nodeAt disk p = some (.file content) := by
  unfold fileAt
  cases nodeAt disk p with
  | none => simp
  | some n => cases n <;> simp

/-- What is above a node is a directory. -/
theorem FileSystem.above (h : FileSystem disk) {n : Node Bytes} {rest : Path}
    (hn : nodeAt disk (p ++ rest) = some n) (hne : rest ≠ []) : isDir disk p = true := by
  induction rest using List.reverseRecOn generalizing n with
  | nil => exact absurd rfl hne
  | append_singleton rest name ih =>
    have hparent := h.parents _ n hn
    rw [← List.append_assoc, List.dropLast_concat] at hparent
    by_cases hrest : rest = []
    · rwa [hrest, List.append_nil] at hparent
    · have hpath : p ++ rest ≠ [] := by simp [hrest]
      exact ih ((isDir_iff hpath).mp hparent) hrest

theorem FileSystem.not_above (h : FileSystem disk) {n : Node Bytes} {rest : Path}
    (hp : nodeAt disk p = some (.file content)) (hn : nodeAt disk (p ++ rest) = some n) :
    rest = [] ∨ p = [] := by
  by_contra hne
  rw [not_or] at hne
  have hdir := (isDir_iff hne.2).mp (h.above hn hne.1)
  rw [hp] at hdir
  cases hdir

/-- The name is not passed over, nor any below it. -/
def keeps (top : Bool) (name : String) (rest : Path) : Bool :=
  !skipsName top name && rest.all fun below => !skipsName false below

theorem keeps_cons (top : Bool) (name next : String) (rest : Path) :
    keeps top name (next :: rest) = (!skipsName top name && keeps false next rest) := rfl

theorem not_isEmpty_concat (below : Path) (name : String) :
    (below ++ [name]).isEmpty = false := by
  cases below <;> rfl

/-- The walk finds only files that no name passes over. -/
theorem appendDir_sound (h : (p, content) ∈ appendDir disk root depth below) :
    ∃ name rest, p = below ++ name :: rest ∧ fileAt disk (root ++ p) = some content ∧
      keeps below.isEmpty name rest = true := by
  induction depth generalizing below with
  | zero => cases h
  | succ depth ih =>
    unfold appendDir at h
    obtain ⟨name, -, h⟩ := List.mem_flatMap.mp h
    cases hs : skipsName below.isEmpty name with
    | true => simp [hs] at h
    | false =>
      simp only [hs, Bool.false_eq_true, if_false] at h
      split at h
      · obtain ⟨next, rest, rfl, hfile, hkeeps⟩ := ih h
        rw [not_isEmpty_concat] at hkeeps
        refine ⟨name, next :: rest, by simp, hfile, ?_⟩
        rw [keeps_cons, hs, hkeeps]
        rfl
      · split at h
        next content' hfile =>
          rw [List.mem_singleton, Prod.mk.injEq] at h
          obtain ⟨rfl, rfl⟩ := h
          exact ⟨name, [], rfl, hfile, by simp [keeps, hs]⟩
        · cases h

/-- The walk finds every file that no name passes over, when it may go as deep. -/
theorem appendDir_complete (hfs : FileSystem disk) {rest : Path}
    (hfile : fileAt disk (root ++ (below ++ name :: rest)) = some content)
    (hkeeps : keeps below.isEmpty name rest = true) (hdepth : rest.length < depth) :
    (below ++ name :: rest, content) ∈ appendDir disk root depth below := by
  induction depth generalizing below name rest with
  | zero => exact absurd hdepth (Nat.not_lt_zero _)
  | succ depth ih =>
    have hnode := fileAt_eq_some.mp hfile
    have hstep : root ++ (below ++ name :: rest) = root ++ (below ++ [name]) ++ rest := by simp
    unfold appendDir
    cases rest with
    | nil =>
      have hread : name ∈ readDir disk (root ++ below) := by
        refine mem_readDir (n := .file content) ?_
        rw [List.append_assoc]
        exact hnode
      have hnot : isDir disk (root ++ (below ++ [name])) = false := by
        rw [← Bool.not_eq_true, isDir_iff (by simp), hnode]
        simp
      have hs : skipsName below.isEmpty name = false := by
        simpa [keeps] using hkeeps
      refine List.mem_flatMap.mpr ⟨name, hread, ?_⟩
      simp [hs, hnot, hfile]
    | cons next rest =>
      rw [keeps_cons, Bool.and_eq_true, Bool.not_eq_true'] at hkeeps
      rw [hstep] at hnode
      have hdir := hfs.above hnode (List.cons_ne_nil _ _)
      have hread : name ∈ readDir disk (root ++ below) := by
        refine mem_readDir (n := .dir) ?_
        rw [List.append_assoc]
        exact (isDir_iff (by simp)).mp hdir
      refine List.mem_flatMap.mpr ⟨name, hread, ?_⟩
      have hsplit : below ++ name :: next :: rest = (below ++ [name]) ++ next :: rest := by simp
      simp only [hkeeps.1, Bool.false_eq_true, if_false, hdir, if_true]
      rw [hsplit] at hfile ⊢
      refine ih hfile ?_ (by simpa using hdepth)
      rw [not_isEmpty_concat]
      exact hkeeps.2

/-- No path of the disk is longer than its height. -/
theorem length_le_height {n : Node Bytes} (h : nodeAt disk p = some n) :
    p.length ≤ height disk := by
  have hmem := mem_of_nodeAt h
  clear h
  induction disk with
  | nil => cases hmem
  | cons entry rest ih =>
    unfold height
    rw [List.foldr_cons]
    rcases List.mem_cons.mp hmem with rfl | hmem
    · exact Nat.le_max_left _ _
    · exact Nat.le_trans (ih hmem) (Nat.le_max_right _ _)

/-- The archive of a profile has exactly its synchronised files. Where there is no directory there
is no file either. -/
theorem mem_packedFiles (hfs : FileSystem disk) : (q, content) ∈ packedFiles disk root ↔
    synced q = true ∧ fileAt disk (root ++ q) = some content := by
  unfold packedFiles
  by_cases hroot : isDir disk root = true
  · rw [if_pos hroot]
    constructor
    · intro h
      obtain ⟨name, rest, rfl, hfile, hkeeps⟩ := appendDir_sound h
      exact ⟨hkeeps, hfile⟩
    · rintro ⟨hsynced, hfile⟩
      cases q with
      | nil => cases hsynced
      | cons name rest =>
        have hlen := length_le_height (fileAt_eq_some.mp hfile)
        rw [List.length_append, List.length_cons] at hlen
        have hmem : ([] ++ name :: rest, content) ∈ appendDir disk root (height disk) [] :=
          appendDir_complete hfs hfile hsynced (by omega)
        exact hmem
  · rw [if_neg hroot]
    constructor
    · exact fun h => absurd h List.not_mem_nil
    · rintro ⟨hsynced, hfile⟩
      cases q with
      | nil => cases hsynced
      | cons name rest =>
        exact absurd (hfs.above (fileAt_eq_some.mp hfile) (List.cons_ne_nil _ _)) hroot

end Walk

section Opening

variable {lib : PackLibrary} {sealer : Sealer} {drawn : Drawn} {files : List (Path × Bytes)}
variable {bundle : Sealed} {key : Key} {stored pre : String}

/-- A wrapped data key opens to its digits under the key that wrapped it. -/
theorem opens_wrapped (hlib : Inverts lib) (h : WrappedUnder lib pre key drawn stored) :
    ∃ rest blob plain, stripPrefix pre stored = some rest ∧ lib.base64Decode rest = some blob ∧
      unwrap lib.toSealLibrary key blob = some plain ∧
      fromUtf8 plain = some (hex drawn.dataKey) := by
  obtain ⟨sealed, hsealed, rfl⟩ := h
  obtain ⟨hopen, hlen⟩ := hlib.decrypt hsealed
  refine ⟨_, _, _, stripPrefix_append _ _, hlib.base64 _, ?_, fromUtf8_utf8 _⟩
  unfold unwrap
  rw [if_neg, List.take_left' drawn.wrapNonce_length, List.drop_left' drawn.wrapNonce_length]
  · exact hopen
  · rw [List.length_append, drawn.wrapNonce_length]
    omega

/-- A value the vault sealed does not look like one under a shared key. -/
theorem sharedPrefix_vaultPrefix (rest : String) :
    stripPrefix sharedPrefix (vaultPrefix ++ rest) = none := by
  unfold stripPrefix
  rw [utf8_append]
  rfl

/-- A sealer that has a key opens what it sealed. -/
theorem open_sealKey (hlib : Inverts lib) (ha : available sealer = true)
    (h : sealKey lib sealer drawn.wrapNonce (hex drawn.dataKey) = .ok stored)
    (hseals : SealsKeys lib) : sealer.open lib.toSealLibrary stored = hex drawn.dataKey := by
  cases sealer with
  | shared key vault =>
    obtain ⟨rest, blob, plain, hrest, hblob, hplain, htext⟩ := opens_wrapped hlib (sealKey_shared h)
    unfold Sealer.open
    simp only [hrest, hblob, hplain, htext, Option.bind_eq_bind, Option.bind_some, Option.getD_some]
  | machine vault =>
    obtain ⟨key, hkey⟩ := Option.isSome_iff_exists.mp ha
    have hwrapped := vaultSeal_wrapped hseals hkey drawn
    rw [Except.ok.inj h] at hwrapped
    have hnot : stripPrefix sharedPrefix stored = none := by
      obtain ⟨_, -, rfl⟩ := hwrapped
      exact sharedPrefix_vaultPrefix _
    obtain ⟨rest, blob, plain, hrest, hblob, hplain, htext⟩ := opens_wrapped hlib hwrapped
    unfold Sealer.open
    simp only [hnot, Option.isSome_none, Bool.false_eq_true, if_false, Vault.openValue,
      Vault.tryOpen, hrest, hkey, hblob, hplain, htext, Option.bind_eq_bind, Option.bind_some,
      Option.getD_some]

/-- Packing that succeeds seals the files, and its sealer has a key. -/
theorem pack_ok {disk : Disk} {root : Path} (h : pack lib disk root sealer drawn = .ok bundle) :
    available sealer = true ∧
      sealBundle lib (packedFiles disk root) sealer drawn = .ok bundle := by
  unfold pack at h
  cases hs : sealBundle lib (packedFiles disk root) sealer drawn with
  | error e =>
    rw [hs] at h
    cases h
  | ok first =>
    rw [hs] at h
    obtain ⟨ha, rfl⟩ := checkSealer_ok h
    exact ⟨ha, rfl⟩

/-- A packed bundle opens under its sealer to the archive of its files. -/
theorem openBundle_of_sealBundle (hlib : Inverts lib) (hseals : SealsKeys lib)
    (ha : available sealer = true) (h : sealBundle lib files sealer drawn = .ok bundle)
    (hnames : ∀ file ∈ files, file.1 ≠ [] ∧ ∀ name ∈ file.1, ProperName name) :
    openBundle lib.toSealLibrary bundle.bytes bundle.wrappedKey sealer =
      .ok (files.map archived) := by
  obtain ⟨sealed, hsealed, hbytes, hkey⟩ := sealBundle_ok h
  have hopen := open_sealKey hlib ha hkey hseals
  have hhead : (magic ++ drawn.nonce).length = magic.length + nonceLen := by
    rw [List.length_append, drawn.nonce_length]
  have hmagic : bundle.bytes.take magic.length = magic := by
    rw [hbytes, List.append_assoc, List.take_left]
  have hnonce : (bundle.bytes.drop magic.length).take nonceLen = drawn.nonce := by
    rw [hbytes, List.append_assoc, List.drop_left, List.take_left' drawn.nonce_length]
  have hbody : bundle.bytes.drop (magic.length + nonceLen) = sealed := by
    rw [hbytes, List.drop_left' hhead]
  have hlen : ¬bundle.bytes.length < magic.length + nonceLen := by
    rw [hbytes, List.length_append, hhead]
    omega
  unfold openBundle
  rw [if_neg (by rw [not_or, not_not]; exact ⟨hlen, hmagic⟩), hopen,
    unhex_hex drawn.dataKey_length]
  simp only [hnonce, hbody, (hlib.decrypt hsealed).1, hlib.archive files hnames]

end Opening

section Landing

variable {dest q : Path} {files : List (Path × Bytes)} {done : List Path} {content : Bytes}
variable {disk after : Disk} {n m : ℕ}

theorem joinPath_archived (dest q : Path) (content : Bytes) :
    joinPath dest ⟨false, q.map .normal, true, some content⟩ = dest ++ q := by
  unfold joinPath
  rw [List.filterMap_map]
  simp

theorem bundleFile_cons (file : Path × Bytes) (p : Path) :
    bundleFile dest ((file :: files).map archived) p =
      (bundleFile dest (files.map archived) p).orElse fun _ =>
        if dest ++ file.1 = p then some file.2 else none := by
  rw [List.map_cons, archived, bundleFile, joinPath_archived]
  simp

/-- What the archive leaves at a path is a file of it. -/
theorem bundleFile_archived {p : Path}
    (h : bundleFile dest (files.map archived) p = some content) :
    ∃ q, dest ++ q = p ∧ (q, content) ∈ files := by
  induction files with
  | nil => cases h
  | cons file rest ih =>
    rw [bundleFile_cons] at h
    cases hb : bundleFile dest (rest.map archived) p with
    | some found =>
      rw [hb, Option.orElse_some] at h
      cases h
      obtain ⟨q, hq, hmem⟩ := ih hb
      exact ⟨q, hq, List.mem_cons_of_mem _ hmem⟩
    | none =>
      rw [hb, Option.orElse_none] at h
      obtain ⟨hpath, hcontent⟩ := Option.ite_none_right_eq_some.mp h
      cases hcontent
      exact ⟨file.1, hpath, List.mem_cons_self⟩

/-- A destination with room: it stands, and below it there are only the files
written and what is above them. -/
structure Room (dest : Path) (done : List Path) (disk : Disk) : Prop where
  /-- The destination stands. -/
  way : ∀ q, q <+: dest → q ≠ [] → nodeAt disk q = some .dir
  /-- A directory below it is above a file. -/
  dirs : ∀ q, q ≠ [] → nodeAt disk (dest ++ q) = some .dir → ∃ f ∈ done, q <+: f ∧ q ≠ f
  /-- A file below it was written. -/
  written : ∀ q content, nodeAt disk (dest ++ q) = some (.file content) → q ∈ done

/-- No file of a list stands above another. -/
def Apart (paths : List Path) : Prop := ∀ f ∈ paths, ∀ g ∈ paths, f <+: g → f = g

/-- With room, a file that stands above and below none of those written is
written, and leaves room. -/
theorem Room.write (h : Room dest done disk) (hq : q ≠ []) (hapart : Apart (q :: done))
    (content : Bytes) :
    ∃ mid after, createDirAll disk (dest ++ q).dropLast = some mid ∧
      writeFile mid (dest ++ q) content = some after ∧ Room dest (q :: done) after := by
  have hlast : (dest ++ q).dropLast = dest ++ q.dropLast := List.dropLast_append_of_ne_nil hq
  have hpath : dest ++ q ≠ [] := by simp [hq]
  have hshort : ¬q <+: q.dropLast := by
    intro hpre
    have hlen := hpre.length_le
    have hpos := List.length_pos_of_ne_nil hq
    rw [List.length_dropLast] at hlen
    omega
  have hdir : isDir disk (dest ++ q) = false := by
    rw [← Bool.not_eq_true, isDir_iff hpath]
    intro hdir
    obtain ⟨f, hf, hpre, hne⟩ := h.dirs q hq hdir
    exact hne (hapart q List.mem_cons_self f (List.mem_cons_of_mem _ hf) hpre)
  have hfree (pre : Path) (hpre : pre <+: dest ++ q.dropLast) (hne : pre ≠ []) :
      fileAt disk pre = none := by
    cases hfile : fileAt disk pre with
    | none => rfl
    | some content =>
      have hnode := fileAt_eq_some.mp hfile
      rcases List.prefix_or_prefix_of_prefix hpre (List.prefix_append _ _) with hway | ⟨s, rfl⟩
      · rw [h.way pre hway hne] at hnode
        cases hnode
      · have hs := (List.prefix_append_right_inj dest).mp hpre
        have hmem := h.written s content hnode
        have heq := hapart s (List.mem_cons_of_mem _ hmem) q List.mem_cons_self
          (hs.trans (List.dropLast_prefix q))
        exact absurd (heq ▸ hs) hshort
  obtain ⟨mid, hm⟩ := Option.isSome_iff_exists.mp (createDirAll_isSome hfree)
  have hmid (p : Path) := createDirAll_nodeAt hm p
  have hparent : isDir mid (dest ++ q).dropLast = true := by
    rw [hlast]
    by_cases hnil : dest ++ q.dropLast = []
    · rw [hnil]
      rfl
    · exact (isDir_iff hnil).mpr (by rw [hmid, if_pos ⟨hnil, List.prefix_rfl⟩])
  have hmiddir : isDir mid (dest ++ q) = false := by
    rw [← hdir]
    refine isDir_congr ?_
    rw [hmid, if_neg]
    exact fun hon => hshort ((List.prefix_append_right_inj dest).mp hon.2)
  obtain ⟨after, hw⟩ := writeFile_of_parent content hparent hmiddir
  refine ⟨mid, after, hlast ▸ hm, hw, ?_⟩
  have hafter (p : Path) : nodeAt after p = if p = dest ++ q then some (.file content)
      else if p ≠ [] ∧ p <+: dest ++ q.dropLast then some .dir else nodeAt disk p := by
    rw [writeFile_nodeAt hw, hmid]
  refine ⟨fun p hp hne => ?_, fun p hp hnode => ?_, fun p content' hnode => ?_⟩
  · rw [hafter, if_neg, if_pos ⟨hne, hp.trans (List.prefix_append _ _)⟩]
    rintro rfl
    have hlen := hp.length_le
    have hpos := List.length_pos_of_ne_nil hq
    rw [List.length_append] at hlen
    omega
  · rw [hafter] at hnode
    split_ifs at hnode with heq hon
    · cases hnode
    · have hpre := (List.prefix_append_right_inj dest).mp hon.2
      refine ⟨q, List.mem_cons_self, hpre.trans (List.dropLast_prefix q), ?_⟩
      rintro rfl
      exact hshort hpre
    · obtain ⟨f, hf, hpre⟩ := h.dirs p hp hnode
      exact ⟨f, List.mem_cons_of_mem _ hf, hpre⟩
  · rw [hafter] at hnode
    split_ifs at hnode with heq hon
    · rw [List.append_cancel_left heq]
      exact List.mem_cons_self
    · cases hnode
    · exact List.mem_cons_of_mem _ (h.written p content' hnode)

/-- An archive whose files stand apart unpacks where there is room. -/
theorem unpackEntries_archived (files : List (Path × Bytes)) (n : ℕ) (h : Room dest done disk)
    (hne : ∀ file ∈ files, file.1 ≠ []) (hapart : Apart (files.map Prod.fst ++ done)) :
    ∃ m after, unpackEntries dest n (files.map archived) disk = .ok m after := by
  induction files generalizing done disk n with
  | nil => exact ⟨n, disk, rfl⟩
  | cons file rest ih =>
    obtain ⟨q, content⟩ := file
    have hsub : Apart (q :: done) := by
      intro f hf g hg
      refine hapart f ?_ g ?_
      · rcases List.mem_cons.mp hf with rfl | hf <;> simp_all
      · rcases List.mem_cons.mp hg with rfl | hg <;> simp_all
    obtain ⟨mid, after, hm, hw, hroom⟩ := h.write (hne _ List.mem_cons_self) hsub content
    obtain ⟨m, last, hrest⟩ := ih (n + 1) hroom (fun f hf => hne f (List.mem_cons_of_mem _ hf)) (by
      intro f hf g hg
      refine hapart f ?_ g ?_
      · rcases List.mem_append.mp hf with hf | hf <;> simp_all
        tauto
      · rcases List.mem_append.mp hg with hg | hg <;> simp_all
        tauto)
    refine ⟨m, last, ?_⟩
    rw [List.map_cons, archived, unpackEntries, joinPath_archived, if_neg (by simp)]
    simp only [Bool.not_true, Bool.false_eq_true, if_false]
    refine bind_ok.mpr ⟨(), mid, io_ok.mpr hm, ?_⟩
    exact bind_ok.mpr ⟨(), after, io_ok.mpr hw, hrest⟩

end Landing

section RoundTrip

variable {lib : PackLibrary} {sealer : Sealer} {drawn : Drawn} {bundle : Sealed}
variable {disk there : Disk} {root dest : Path}

/-- A directory with nothing in it. -/
structure EmptyDirectory (disk : Disk) (dest : Path) : Prop where
  standing : isDir disk dest = true
  empty : ∀ q, q ≠ [] → nodeAt disk (dest ++ q) = none

theorem EmptyDirectory.fileAt (h : EmptyDirectory there dest) (hfs : FileSystem there) (q : Path) :
    fileAt there (dest ++ q) = none := by
  cases hfile : PathTree.fileAt there (dest ++ q) with
  | none => rfl
  | some content =>
    have hnode := fileAt_eq_some.mp hfile
    by_cases hq : q = []
    · have hdest : dest ≠ [] := by
        have := (hfs.names _ _ hnode).1
        rwa [hq, List.append_nil] at this
      rw [hq, List.append_nil, (isDir_iff hdest).mp h.standing] at hnode
      cases hnode
    · rw [h.empty q hq] at hnode
      cases hnode

theorem room_of_empty (hfs : FileSystem there) (h : EmptyDirectory there dest) :
    ∃ made, createDirAll there dest = some made ∧ Room dest [] made := by
  have hway (q : Path) (hq : q <+: dest) (hne : q ≠ []) : nodeAt there q = some .dir := by
    obtain ⟨rest, rfl⟩ := hq
    refine (isDir_iff hne).mp ?_
    by_cases hrest : rest = []
    · have hstanding := h.standing
      rwa [hrest, List.append_nil] at hstanding
    · exact hfs.above ((isDir_iff (by simp [hne])).mp h.standing) hrest
  have hfree (q : Path) (hq : q <+: dest) (hne : q ≠ []) : fileAt there q = none := by
    simp [PathTree.fileAt, hway q hq hne]
  obtain ⟨made, hm⟩ := Option.isSome_iff_exists.mp (createDirAll_isSome hfree)
  have hsame (q : Path) : nodeAt made q = nodeAt there q := by
    rw [createDirAll_nodeAt hm]
    split_ifs with hon
    · exact (hway q hon.2 hon.1).symm
    · rfl
  refine ⟨made, hm, fun q hq hne => ?_, fun q hq hnode => ?_, fun q content hnode => ?_⟩
  · rw [hsame, hway q hq hne]
  · rw [hsame, h.empty q hq] at hnode
    cases hnode
  · rw [hsame] at hnode
    have hnone := h.fileAt hfs q
    rw [fileAt_eq_some.mpr hnode] at hnone
    cases hnone

/-- The files of an archive stand apart, because those of the profile do. -/
theorem apart_packedFiles (hfs : FileSystem disk) :
    Apart ((packedFiles disk root).map Prod.fst ++ []) := by
  rw [List.append_nil]
  intro f hf g hg hpre
  obtain ⟨⟨f, content⟩, hfin, rfl⟩ := List.mem_map.mp hf
  obtain ⟨⟨g, content'⟩, hgin, rfl⟩ := List.mem_map.mp hg
  obtain ⟨hsynced, hfile⟩ := (mem_packedFiles hfs).mp hfin
  obtain ⟨-, hfile'⟩ := (mem_packedFiles hfs).mp hgin
  dsimp only at hpre ⊢
  obtain ⟨rest, rfl⟩ := hpre
  rw [← List.append_assoc] at hfile'
  rcases hfs.not_above (fileAt_eq_some.mp hfile) (fileAt_eq_some.mp hfile') with rfl | hnil
  · exact (List.append_nil f).symm
  · simp [(List.append_eq_nil_iff.mp hnil).2, synced] at hsynced

theorem packedFiles_names (hfs : FileSystem disk) :
    ∀ file ∈ packedFiles disk root, file.1 ≠ [] ∧ ∀ name ∈ file.1, ProperName name := by
  rintro ⟨q, content⟩ hmem
  obtain ⟨hsynced, hfile⟩ := (mem_packedFiles hfs).mp hmem
  refine ⟨?_, fun name hname => ?_⟩
  · rintro rfl
    cases hsynced
  · exact (hfs.names _ _ (fileAt_eq_some.mp hfile)).2 name (List.mem_append_right _ hname)

/-- What an archive of a profile's files leaves at a path of the destination. -/
theorem bundleFile_packedFiles (hfs : FileSystem disk) {made after : Disk} {n m : ℕ}
    (h : unpackEntries dest n ((packedFiles disk root).map archived) made = .ok m after)
    (q : Path) : bundleFile dest ((packedFiles disk root).map archived) (dest ++ q) =
      if synced q then fileAt disk (root ++ q) else none := by
  cases hb : bundleFile dest ((packedFiles disk root).map archived) (dest ++ q) with
  | some content =>
    obtain ⟨q', hq', hmem⟩ := bundleFile_archived hb
    rw [List.append_cancel_left hq'] at hmem
    obtain ⟨hsynced, hfile⟩ := (mem_packedFiles hfs).mp hmem
    rw [if_pos hsynced, hfile]
  | none =>
    by_contra hne
    have hcarried : ∃ content, synced q = true ∧ fileAt disk (root ++ q) = some content := by
      split_ifs at hne with hsynced
      · obtain ⟨content, hfile⟩ := Option.ne_none_iff_exists'.mp (Ne.symm hne)
        exact ⟨content, hsynced, hfile⟩
      · exact absurd rfl hne
    obtain ⟨content, hmem⟩ := hcarried
    have hmem := (mem_packedFiles hfs).mpr hmem
    have hsome := unpackEntries_content h (List.mem_map.mpr ⟨_, hmem, rfl⟩) rfl
    rw [joinPath_archived, hb] at hsome
    cases hsome

/-- A bundle that packing made opens under its sealer to the files of the profile. -/
theorem openBundle_of_pack (hlib : Inverts lib) (hseals : SealsKeys lib) (hfs : FileSystem disk)
    (hpack : pack lib disk root sealer drawn = .ok bundle) :
    openBundle lib.toSealLibrary bundle.bytes bundle.wrappedKey sealer =
      .ok ((packedFiles disk root).map archived) := by
  obtain ⟨havailable, hseal⟩ := pack_ok hpack
  exact openBundle_of_sealBundle hlib hseals havailable hseal (packedFiles_names hfs)

/-- An archive of the files of a profile, unpacked into an empty directory, leaves exactly these
there. -/
theorem unpack_packedFiles (hfs : FileSystem disk) (hthere : FileSystem there)
    (hempty : EmptyDirectory there dest)
    (hopen : openBundle lib.toSealLibrary bundle.bytes bundle.wrappedKey sealer =
      .ok ((packedFiles disk root).map archived)) :
    ∃ n after, unpack lib.toSealLibrary bundle.bytes bundle.wrappedKey sealer dest there =
        .ok n after ∧
      (∀ q, fileAt after (dest ++ q) = if synced q then fileAt disk (root ++ q) else none) ∧
      ∀ p, ¬dest <+: p → fileAt after p = fileAt there p := by
  obtain ⟨made, hm, hroom⟩ := room_of_empty hthere hempty
  obtain ⟨n, after, hgo⟩ := unpackEntries_archived (packedFiles disk root) 0 hroom
    (fun file hfile => (packedFiles_names hfs file hfile).1) (apart_packedFiles hfs)
  have hafter (p : Path) : fileAt after p =
      (bundleFile dest ((packedFiles disk root).map archived) p).orElse fun _ =>
        fileAt there p := by
    rw [unpackEntries_fileAt hgo p, createDirAll_fileAt hm]
  refine ⟨n, after, ?_, fun q => ?_, fun p hp => ?_⟩
  · unfold unpack
    rw [hopen]
    exact bind_ok.mpr ⟨(), made, io_ok.mpr hm, hgo⟩
  · rw [hafter, bundleFile_packedFiles hfs hgo, hempty.fileAt hthere]
    cases (if synced q then fileAt disk (root ++ q) else none) <;> rfl
  · rw [hafter]
    cases hb : bundleFile dest ((packedFiles disk root).map archived) p with
    | none => rfl
    | some content =>
      obtain ⟨q, rfl, -⟩ := bundleFile_archived hb
      exact absurd (List.prefix_append _ _) hp

/-- A packed profile, unpacked by the same sealer into an empty directory, leaves
exactly its synchronised files there, each with its content, and no file
elsewhere. -/
theorem unpack_pack (hlib : Inverts lib) (hseals : SealsKeys lib) (hfs : FileSystem disk)
    (_hroot : isDir disk root = true) (hthere : FileSystem there)
    (hempty : EmptyDirectory there dest)
    (hpack : pack lib disk root sealer drawn = .ok bundle) :
    ∃ n after, unpack lib.toSealLibrary bundle.bytes bundle.wrappedKey sealer dest there =
        .ok n after ∧
      (∀ q, fileAt after (dest ++ q) = if synced q then fileAt disk (root ++ q) else none) ∧
      ∀ p, ¬dest <+: p → fileAt after p = fileAt there p :=
  unpack_packedFiles hfs hthere hempty (openBundle_of_pack hlib hseals hfs hpack)

/-- The lists read by their names: a dictionary is a file of the profile's own
directory. -/
def listed : Path → Bool
  | [] => false
  | name :: rest =>
    ((name :: rest).all fun n => !skip.contains n && !skipCaches.contains n) &&
      !skipComponents.contains name && !(rest.isEmpty && isDictionary name)

end RoundTrip

section Samples

/-- A byte string that says where it ends. -/
def frame (bytes : Bytes) : Bytes := (bytes.flatMap fun b => [1, b]) ++ [0]

/-- The byte strings one after another. -/
def frames : Bytes → Bytes → List Bytes
  | acc, 0 :: rest => acc :: frames [] rest
  | acc, 1 :: b :: rest => frames (acc ++ [b]) rest
  | _, _ => []

theorem frames_frame (bytes acc rest : Bytes) :
    frames acc (frame bytes ++ rest) = (acc ++ bytes) :: frames [] rest := by
  induction bytes generalizing acc with
  | nil => simp [frame, frames]
  | cons b bytes ih =>
    have hstep : frame (b :: bytes) ++ rest = 1 :: b :: (frame bytes ++ rest) := by
      simp [frame]
    rw [hstep, frames, ih, List.append_assoc]
    rfl

/-- An archive: for each file the names of its path, an empty string, and its
content. -/
def sampleArchive (files : List (Path × Bytes)) : Bytes :=
  files.flatMap fun file =>
    (file.1.flatMap fun name => frame (utf8 name)) ++ (frame [] ++ frame file.2)

/-- The entries those strings spell. -/
def sampleEntries : Path → List Bytes → List (Option TarEntry)
  | path, [] :: content :: rest => archived (path, content) :: sampleEntries [] rest
  | path, name :: rest => sampleEntries (path ++ [(fromUtf8 name).getD ""]) rest
  | _, [] => []

theorem frames_path (path : Path) (rest : Bytes) :
    frames [] ((path.flatMap fun name => frame (utf8 name)) ++ rest) =
      path.map utf8 ++ frames [] rest := by
  induction path with
  | nil => rfl
  | cons name path ih =>
    rw [List.flatMap_cons, List.append_assoc, frames_frame, ih]
    rfl

theorem sampleEntries_path (path done : Path) (rest : List Bytes)
    (h : ∀ name ∈ path, ProperName name) :
    sampleEntries done (path.map utf8 ++ rest) = sampleEntries (done ++ path) rest := by
  induction path generalizing done with
  | nil => rw [List.map_nil, List.nil_append, List.append_nil]
  | cons name path ih =>
    have hread := fromUtf8_utf8 name
    rw [List.map_cons, List.cons_append]
    cases hb : utf8 name with
    | nil =>
      rw [hb] at hread
      exact absurd (Option.some.inj hread).symm (h name List.mem_cons_self).1
    | cons b bytes =>
      rw [sampleEntries, ← hb, hread, Option.getD_some,
        ih _ fun n hn => h n (List.mem_cons_of_mem _ hn), List.append_assoc]
      · rfl
      · simp

theorem sampleEntries_archive (files : List (Path × Bytes))
    (h : ∀ file ∈ files, file.1 ≠ [] ∧ ∀ name ∈ file.1, ProperName name) :
    sampleEntries [] (frames [] (sampleArchive files)) = files.map archived := by
  induction files with
  | nil => rfl
  | cons file files ih =>
    unfold sampleArchive at ih ⊢
    rw [List.flatMap_cons, List.append_assoc, frames_path,
      sampleEntries_path _ _ _ (h file List.mem_cons_self).2, List.append_assoc, frames_frame,
      frames_frame, List.nil_append, List.nil_append, sampleEntries,
      ih fun f hf => h f (List.mem_cons_of_mem _ hf)]
    rfl

/-- A cipher that adds a tag, digits for an encoding, and that archive. -/
def sampleLibrary : PackLibrary where
  decrypt _ _ body := some (body.drop 16)
  base64Decode := hexBytes
  readArchive bytes := some (sampleEntries [] (frames [] bytes))
  subkey key _ _ := key
  keyFingerprint _ := ""
  encrypt _ _ plain := some (List.replicate 16 0 ++ plain)
  base64Encode := hex
  writeArchive := sampleArchive
  sha256 _ := []

theorem sampleLibrary_inverts : Inverts sampleLibrary where
  decrypt h := by
    cases h
    refine ⟨congrArg some (List.drop_left' (by simp)), ?_⟩
    rw [List.length_append, List.length_replicate, Nat.add_comm]
  base64 bytes := (hex_spells bytes).2
  archive files h := congrArg some (sampleEntries_archive files h)

theorem sampleLibrary_sealsKeys : SealsKeys sampleLibrary := fun _ _ _ _ => rfl

instance (name : String) : Decidable (ProperName name) := inferInstanceAs (Decidable (_ ∧ _))

/-- The entries of a disk say whether it is one. -/
theorem fileSystem_of_entries {disk : Disk}
    (h : ∀ entry ∈ disk, isDir disk entry.1.dropLast = true ∧ entry.1 ≠ [] ∧
      ∀ name ∈ entry.1, ProperName name) : FileSystem disk :=
  ⟨fun _ _ hn => (h _ (mem_of_nodeAt hn)).1, fun _ _ hn => (h _ (mem_of_nodeAt hn)).2⟩

/-- A profile with a cookie store and a cache. -/
def sampleDisk : Disk :=
  [(["a"], .dir), (["a", "Default"], .dir), (["a", "Default", "Cookies"], .file [1]),
    (["a", "Default", "Cache"], .dir), (["a", "Default", "Cache", "0"], .file [2])]

/-- A profile with a directory named like a dictionary. -/
def dictionaryDisk : Disk :=
  [(["a"], .dir), (["a", "en-US.bdic"], .dir), (["a", "en-US.bdic", "notes"], .file [1])]

/-- An empty directory on another machine. -/
def emptyDisk : Disk := [(["b"], .dir)]

theorem emptyDisk_fileSystem : FileSystem emptyDisk := fileSystem_of_entries (by decide)

theorem emptyDisk_empty : EmptyDirectory emptyDisk ["b"] := by
  refine ⟨rfl, fun q hq => ?_⟩
  cases q with
  | nil => exact absurd rfl hq
  | cons name rest => simp [emptyDisk, nodeAt]

/-- Keys and nonces of zeros. -/
def sampleDrawn : Drawn :=
  ⟨List.replicate 32 0, List.replicate 24 0, List.replicate 24 0, rfl, rfl, rfl⟩

/-- The cookie store travels and the cache does not. -/
theorem unpack_pack_cookies :
    ∃ bundle n after, pack sampleLibrary sampleDisk ["a"] (.machine ⟨some []⟩) sampleDrawn =
        .ok bundle ∧
      unpack sampleLibrary.toSealLibrary bundle.bytes bundle.wrappedKey (.machine ⟨some []⟩) ["b"]
        emptyDisk = .ok n after ∧
      fileAt after ["b", "Default", "Cookies"] = some [1] ∧
      fileAt after ["b", "Default", "Cache", "0"] = none := by
  obtain ⟨bundle, hpack⟩ : ∃ bundle, pack sampleLibrary sampleDisk ["a"] (.machine ⟨some []⟩)
      sampleDrawn = .ok bundle := ⟨_, rfl⟩
  obtain ⟨n, after, hunpack, hfiles, -⟩ := unpack_pack sampleLibrary_inverts sampleLibrary_sealsKeys
    (fileSystem_of_entries (by decide)) rfl emptyDisk_fileSystem emptyDisk_empty hpack
  exact ⟨bundle, n, after, hpack, hunpack, hfiles ["Default", "Cookies"],
    hfiles ["Default", "Cache", "0"]⟩

/-- A file in a top-level directory named like a dictionary is on none of the
lists, and is left behind. -/
theorem dictionary_directory_dropped :
    ¬∀ (lib : PackLibrary) (sealer : Sealer) (drawn : Drawn) (bundle : Sealed)
      (disk there : Disk) (root dest : Path), Inverts lib → SealsKeys lib → FileSystem disk →
      isDir disk root = true → FileSystem there → EmptyDirectory there dest →
      pack lib disk root sealer drawn = .ok bundle →
      ∃ n after, unpack lib.toSealLibrary bundle.bytes bundle.wrappedKey sealer dest there =
          .ok n after ∧
        (∀ q, fileAt after (dest ++ q) = if listed q then fileAt disk (root ++ q) else none) ∧
        ∀ p, ¬dest <+: p → fileAt after p = fileAt there p := by
  intro h
  obtain ⟨bundle, hpack⟩ : ∃ bundle, pack sampleLibrary dictionaryDisk ["a"]
      (.machine ⟨some []⟩) sampleDrawn = .ok bundle := ⟨_, rfl⟩
  have hleft : leaves (unpack sampleLibrary.toSealLibrary bundle.bytes bundle.wrappedKey
      (.machine ⟨some []⟩) ["b"]) emptyDisk = emptyDisk := by
    cases hpack
    decide +kernel
  obtain ⟨n, after, hunpack, hfiles, -⟩ := h sampleLibrary (.machine ⟨some []⟩) sampleDrawn bundle
    dictionaryDisk emptyDisk ["a"] ["b"] sampleLibrary_inverts sampleLibrary_sealsKeys
    (fileSystem_of_entries (by decide)) rfl emptyDisk_fileSystem emptyDisk_empty hpack
  have hafter : after = emptyDisk := by
    unfold leaves at hleft
    rw [hunpack] at hleft
    exact hleft
  have hnotes := hfiles ["en-US.bdic", "notes"]
  rw [hafter] at hnotes
  exact absurd hnotes (by decide)

end Samples

end FuryBrowser.BundleRoundTrip
