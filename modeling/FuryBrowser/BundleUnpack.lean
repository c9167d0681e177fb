import FuryBrowser.AgentDisk

/-!
# Opening a profile bundle

A bundle is a gzipped tar archive sealed under a data key, and the data key
travels wrapped. Opening one checks the magic, opens the wrapped key, opens the
archive, and then writes the archive's files one after another over whatever
the destination already holds. A failure half-way keeps the files written
before it.

The ciphers, the base64 decoder and the archive reader are parameters: what
they return is theirs, what is done with it is modelled.
-/

namespace FuryBrowser.BundleUnpack

open PathTree AgentDisk

/-- A 32-byte key. -/
abbrev Key := Bytes

/-- A component of a path: `..` or a name. A leading `/` is recorded apart;
`.` and empty components name nothing. -/
inductive Component where
  /-- The parent directory, `..`. -/
  | parentDir
  | normal (name : String)
  deriving DecidableEq, Repr

/-- An entry of a tar archive. -/
structure TarEntry where
  /-- Whether the entry's path starts at the root. -/
  absolute : Bool
  /-- The components of the entry's path. -/
  components : List Component
  /-- Whether the header says a regular file. -/
  isFile : Bool
  /-- The entry's bytes, when they can be read to their end. -/
  content : Option Bytes
  deriving DecidableEq, Repr

/-- What the sealing libraries compute. -/
structure SealLibrary where
  /-- XChaCha20-Poly1305 decryption of a body under a key and a 24-byte nonce. -/
  decrypt : Key → Bytes → Bytes → Option Bytes
  /-- Standard base64, decoded from the bytes of a text. -/
  base64Decode : Bytes → Option Bytes
  /-- Gunzip, then the entries of the tar archive; `none` in the list is an
  entry whose header or name cannot be read, and ends the list. -/
  readArchive : Bytes → Option (List (Option TarEntry))
  /-- `keys::subkey`: HKDF over a label and an id. -/
  subkey : Key → String → String → Key
  /-- `keys::key_fingerprint`: sixteen hexadecimal digits. -/
  keyFingerprint : Key → String

/-- The length of a nonce. -/
def nonceLen : ℕ := 24

/-- `b"FURY-BN1"`. -/
def magic : Bytes := utf8 "FURY-BN1"

/-- `SHARED_BUNDLE_PREFIX`: a key wrapped under a shared key. -/
def sharedPrefix : String := "fury:ork1:"

/-- `vault::PREFIX`: a value sealed by a machine's vault. -/
def vaultPrefix : String := "fury:v1:"

/-- `str::strip_prefix`: the bytes of the rest. -/
def stripPrefix (pre text : String) : Option Bytes :=
  if (utf8 pre).isPrefixOf (utf8 text) then some ((utf8 text).drop (utf8 pre).length)
  else none

/-- A machine's vault: the key it holds, when the keychain gives it one. -/
structure Vault where
  key : Option Key

/-- What wraps a bundle's data key. -/
inductive Sealer where
  /-- A profile that lives only on this machine. -/
  | machine (vault : Vault)
  /-- A team profile's own key, with the vault for bundles packed before it. -/
  | shared (key : Key) (vault : Option Vault)

section Opening

variable (lib : SealLibrary)

/-- `keys::unwrap` and the tail of `Vault::try_open`: a nonce and a body. -/
def unwrap (key blob : Bytes) : Option Bytes :=
  if blob.length ≤ nonceLen then none
  else lib.decrypt key (blob.take nonceLen) (blob.drop nonceLen)

/-- `Vault::try_open`. -/
def Vault.tryOpen (vault : Vault) (stored : String) : Option String :=
  match stripPrefix vaultPrefix stored with
  | none => some stored
  | some rest => do
    let key ← vault.key
    let blob ← lib.base64Decode rest
    let plain ← unwrap lib key blob
    fromUtf8 plain

/-- `Vault::open_value`: nothing rather than the ciphertext. -/
def Vault.openValue (vault : Vault) (stored : String) : String :=
  (vault.tryOpen lib stored).getD ""

/-- `Sealer::open`: the data key in hexadecimal, or nothing. -/
def Sealer.open (sealer : Sealer) (stored : String) : String :=
  match sealer with
  | .machine vault =>
    if (stripPrefix sharedPrefix stored).isSome then "" else vault.openValue lib stored
  | .shared key vault =>
    match stripPrefix sharedPrefix stored with
    | none => (vault.map fun v => v.openValue lib stored).getD ""
    | some rest =>
      (do
        let blob ← lib.base64Decode rest
        let plain ← unwrap lib key blob
        fromUtf8 plain).getD ""

/-- The value of one hexadecimal digit. -/
def hexDigit (b : UInt8) : Option ℕ :=
  if 48 ≤ b ∧ b ≤ 57 then some (b.toNat - 48)
  else if 97 ≤ b ∧ b ≤ 102 then some (b.toNat - 87)
  else if 65 ≤ b ∧ b ≤ 70 then some (b.toNat - 55)
  else none

/-- `u8::from_str_radix(_, 16)` on two bytes of text: a leading `+` is a sign. -/
def hexByte (hi lo : UInt8) : Option UInt8 :=
  if hi = 43 then (hexDigit lo).map .ofNat
  else do
    let h ← hexDigit hi
    let l ← hexDigit lo
    some (.ofNat (16 * h + l))

/-- The bytes that pairs of hexadecimal digits spell. -/
def hexBytes : Bytes → Option Bytes
  | [] => some []
  | hi :: lo :: rest => do
    let b ← hexByte hi lo
    let bytes ← hexBytes rest
    some (b :: bytes)
  | [_] => none

/-- `unhex`: exactly 64 bytes of text. A pair that cuts a character in two
gives no key here and stops the launch there. -/
def unhex (text : String) : Option Key :=
  if (utf8 text).length ≠ 64 then none else hexBytes (utf8 text)

/-- Everything `unpack` does before it touches the disk. -/
def openBundle (sealed : Bytes) (wrappedKey : String) (sealer : Sealer) :
    Except AgentError (List (Option TarEntry)) :=
  if sealed.length < magic.length + nonceLen ∨ sealed.take magic.length ≠ magic then
    .error (.message "this is not a Fury bundle")
  else
    match unhex (sealer.open lib wrappedKey) with
    | none => .error (.message
        ("this bundle's key will not open here. A team profile needs the organisation key, " ++
          "and a personal one needs the machine that packed it"))
    | some key =>
      let nonce := (sealed.drop magic.length).take nonceLen
      let body := sealed.drop (magic.length + nonceLen)
      match lib.decrypt key nonce body with
      | none => .error (.message
          "the bundle is not readable with this key, or was altered")
      | some compressed =>
        match lib.readArchive compressed with
        | none => .error .io
        | some entries => .ok entries

end Opening

/-- `dest.join(path)`: an absolute path replaces the destination. -/
def joinPath (dest : Path) (entry : TarEntry) : Path :=
  let names := entry.components.filterMap fun
    | .normal name => some name
    | .parentDir => none
  if entry.absolute then names else dest ++ names

/-- The loop of `unpack` over the archive's entries. -/
def unpackEntries (dest : Path) (written : ℕ) : List (Option TarEntry) → DiskOp ℕ
  | [] => pure written
  | none :: _ => throw .io
  | some entry :: rest => do
    if .parentDir ∈ entry.components then
      throw (.message "the bundle contains a path that escapes its directory")
    if !entry.isFile then unpackEntries dest written rest
    else
      let target := joinPath dest entry
      io (createDirAll · target.dropLast)
      match entry.content with
      | none => throw .io
      | some buf =>
        io (writeFile · target buf)
        unpackEntries dest (written + 1) rest

/-- `bundle::unpack`. -/
def unpack (lib : SealLibrary) (sealed : Bytes) (wrappedKey : String) (sealer : Sealer)
    (dest : Path) : DiskOp ℕ :=
  match openBundle lib sealed wrappedKey sealer with
  | .error e => throw e
  | .ok entries => do
    io (createDirAll · dest)
    unpackEntries dest 0 entries

/-- The content the archive's files leave at a path: that of the last of them
written there. -/
def bundleFile (dest : Path) : List (Option TarEntry) → Path → Option Bytes
  | [], _ => none
  | none :: rest, q => bundleFile dest rest q
  | some entry :: rest, q =>
    (bundleFile dest rest q).orElse fun _ =>
      if entry.isFile ∧ joinPath dest entry = q then entry.content else none

section Loop

variable {dest : Path} {entries : List (Option TarEntry)} {disk disk' : Disk} {n m : ℕ}

/-- One entry of the loop, when the loop succeeds: a file is written and the
rest follows, anything else is passed over. -/
theorem unpackEntries_cons {entry : TarEntry} {rest : List (Option TarEntry)}
    (h : unpackEntries dest n (some entry :: rest) disk = .ok m disk') :
    .parentDir ∉ entry.components ∧
      ((entry.isFile = false ∧ unpackEntries dest n rest disk = .ok m disk') ∨
        ∃ buf made written, entry.isFile = true ∧ entry.content = some buf ∧
          createDirAll disk (joinPath dest entry).dropLast = some made ∧
          writeFile made (joinPath dest entry) buf = some written ∧
          unpackEntries dest (n + 1) rest written = .ok m disk') := by
  unfold unpackEntries at h
  by_cases hp : Component.parentDir ∈ entry.components
  · simp [hp, bind_ok] at h
  refine ⟨hp, ?_⟩
  simp only [if_neg hp] at h
  cases hf : entry.isFile with
  | false =>
    left
    simpa [hf, bind_ok] using h
  | true =>
    right
    simp only [hf, Bool.not_true, Bool.false_eq_true, if_false, bind_ok, io_ok] at h
    obtain ⟨_, made, hmade, h⟩ := h
    cases hc : entry.content with
    | none => simp [hc] at h
    | some buf =>
      simp only [hc, bind_ok, io_ok] at h
      obtain ⟨_, written, hwritten, hrest⟩ := h
      exact ⟨buf, made, written, rfl, rfl, hmade, hwritten, hrest⟩

/-- An unpack that succeeds leaves the archive's files over the files that were
there, and nothing else. -/
theorem unpackEntries_fileAt (h : unpackEntries dest n entries disk = .ok m disk') (q : Path) :
    fileAt disk' q = (bundleFile dest entries q).orElse fun _ => fileAt disk q := by
  induction entries generalizing disk n with
  | nil =>
    obtain ⟨-, rfl⟩ := pure_ok.mp h
    rfl
  | cons head rest ih =>
    cases head with
    | none => simp [unpackEntries] at h
    | some entry =>
      obtain ⟨-, hskip | ⟨buf, made, written, hf, hc, hmade, hwritten, hrest⟩⟩ :=
        unpackEntries_cons h
      · rw [ih hskip.2]
        simp [bundleFile, hskip.1]
      · rw [ih hrest, writeFile_fileAt hwritten, createDirAll_fileAt hmade]
        by_cases hq : q = joinPath dest entry
        · subst hq
          cases hb : bundleFile dest rest (joinPath dest entry) <;> simp [bundleFile, hf, hc, hb]
        · have hq' : joinPath dest entry ≠ q := Ne.symm hq
          cases hb : bundleFile dest rest q <;> simp [bundleFile, hf, hb, hq, hq']

/-- Every file of an archive that unpacks has its bytes in the bundle. -/
theorem unpackEntries_content (h : unpackEntries dest n entries disk = .ok m disk')
    {entry : TarEntry} (he : some entry ∈ entries) (hf : entry.isFile = true) :
    (bundleFile dest entries (joinPath dest entry)).isSome := by
  induction entries generalizing disk n with
  | nil => simp at he
  | cons head rest ih =>
    cases head with
    | none => simp [unpackEntries] at h
    | some first =>
      have hrest : some entry ∈ rest → ∃ k d, unpackEntries dest k rest d = .ok m disk' := by
        intro _
        obtain ⟨-, hskip | ⟨_, _, written, -, -, -, -, hgo⟩⟩ := unpackEntries_cons h
        · exact ⟨n, disk, hskip.2⟩
        · exact ⟨n + 1, written, hgo⟩
      rcases List.mem_cons.mp he with heq | hmem
      · cases heq
        obtain ⟨-, hskip | ⟨buf, _, _, -, hc, -, -, -⟩⟩ := unpackEntries_cons h
        · simp [hf] at hskip
        · cases hb : bundleFile dest rest (joinPath dest entry) <;> simp [bundleFile, hf, hc, hb]
      · obtain ⟨k, d, hgo⟩ := hrest hmem
        have := ih hgo hmem
        cases hb : bundleFile dest rest (joinPath dest entry) with
        | none => simp [hb] at this
        | some buf => simp [bundleFile, hb]

/-- Only the files of the archive are in the bundle. -/
theorem bundleFile_mem {q : Path} {content : Bytes}
    (h : bundleFile dest entries q = some content) :
    ∃ entry, some entry ∈ entries ∧ entry.isFile = true ∧ joinPath dest entry = q := by
  induction entries with
  | nil => simp [bundleFile] at h
  | cons head rest ih =>
    cases head with
    | none =>
      obtain ⟨entry, hmem, hentry⟩ := ih h
      exact ⟨entry, List.mem_cons_of_mem _ hmem, hentry⟩
    | some first =>
      cases hb : bundleFile dest rest q with
      | some buf =>
        obtain ⟨entry, hmem, hentry⟩ := ih (by simpa [bundleFile, hb] using h)
        exact ⟨entry, List.mem_cons_of_mem _ hmem, hentry⟩
      | none =>
        simp only [bundleFile, hb, Option.orElse_eq_or, Option.none_or,
          Option.ite_none_right_eq_some] at h
        exact ⟨first, List.mem_cons_self, h.1⟩

end Loop

/-- An unpack that succeeds opened the bundle, and leaves its files over the
files that were there. -/
theorem unpack_ok {lib : SealLibrary} {sealed : Bytes} {wrappedKey : String} {sealer : Sealer}
    {dest : Path} {disk disk' : Disk} {m : ℕ}
    (h : unpack lib sealed wrappedKey sealer dest disk = .ok m disk') :
    ∃ entries made, openBundle lib sealed wrappedKey sealer = .ok entries ∧
      createDirAll disk dest = some made ∧ unpackEntries dest 0 entries made = .ok m disk' ∧
      ∀ q, fileAt disk' q = (bundleFile dest entries q).orElse fun _ => fileAt disk q := by
  unfold unpack at h
  cases ho : openBundle lib sealed wrappedKey sealer with
  | error e => simp [ho] at h
  | ok entries =>
    simp only [ho, bind_ok, io_ok] at h
    obtain ⟨_, made, hmade, hgo⟩ := h
    refine ⟨entries, made, rfl, hmade, hgo, fun q => ?_⟩
    rw [unpackEntries_fileAt hgo q, createDirAll_fileAt hmade]

section Synced

/-- `SKIP`: names that describe a running browser on one machine. -/
def skip : List String :=
  ["SingletonLock", "SingletonSocket", "SingletonCookie", "lockfile", "DevToolsActivePort"]

/-- `SKIP_CACHES`. -/
def skipCaches : List String :=
  ["download_cache", "GraphiteDawnCache", "component_crx_cache", "CertificateRevocation",
    "Subresource Filter", "segmentation_platform", "Cache", "Code Cache", "GPUCache",
    "DawnGraphiteCache", "DawnWebGPUCache", "ShaderCache", "GrShaderCache",
    "Shared Dictionary", "optimization_guide_hint_cache_store", "CacheStorage"]

/-- `SKIP_COMPONENTS`: what the browser downloads into the top of a profile. -/
def skipComponents : List String :=
  ["WasmTtsEngine", "OnDeviceHeadSuggestModel", "ActorSafetyLists",
    "AmountExtractionHeuristicRegexes", "CaptchaProviders", "Crowd Deny", "FileTypePolicies",
    "FirstPartySetsPreloaded", "MEIPreload", "OptimizationHints", "OriginTrials",
    "PKIMetadata", "PrivacySandboxAttestationsPreloaded", "SSLErrorAssistant", "SafetyTips",
    "TrustTokenKeyCommitments", "ZxcvbnData", "GPUPersistentCache", "extensions_crx_cache",
    "BrowserMetrics", "BrowserMetrics-spare.pma", "hyphen-data", "WidevineCdm"]

/-- `name.ends_with(".bdic")`: a spell-check dictionary. -/
def isDictionary (name : String) : Bool :=
  ".bdic".toList.isSuffixOf name.toList

/-- Whether `append_dir` passes over a name; `top` says it is in the profile's
own directory. -/
def skipsName (top : Bool) (name : String) : Bool :=
  skip.contains name || skipCaches.contains name ||
    (top && (skipComponents.contains name || isDictionary name))

/-- Whether a path inside a profile directory is synchronised: no name on the
way to it is passed over. -/
def synced : Path → Bool
  | [] => false
  | name :: rest => !skipsName true name && rest.all fun below => !skipsName false below

end Synced

end FuryBrowser.BundleUnpack
