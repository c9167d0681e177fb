import Mathlib.Data.List.Dedup
import FuryBrowser.BundleUnpack

/-!
# Packing a profile bundle

Packing walks a profile's directory, writes the files it does not pass over
into a compressed archive, seals the archive under a key it draws, and wraps
that key: under the machine's vault for a profile that lives here, under a
shared key for a team profile.

The vault hands a value back as it is when it has no key, so packing asks
afterwards whether there was one and refuses if not. The two questions are two
readings of the vault, and are two stages here.
-/

namespace FuryBrowser.BundlePack

open PathTree AgentDisk BundleUnpack

/-- What packing needs of the libraries besides what opening needs. -/
structure PackLibrary extends SealLibrary where
  /-- XChaCha20-Poly1305 encryption of a text under a key and a 24-byte nonce. -/
  encrypt : Key → Bytes → Bytes → Option Bytes
  base64Encode : Bytes → String
  /-- The tar archive of some files, gzipped. -/
  writeArchive : List (Path × Bytes) → Bytes
  sha256 : Bytes → Bytes

/-- What one packing draws at random. -/
structure Drawn where
  dataKey : Key
  /-- The nonce the archive is sealed with. -/
  nonce : Bytes
  /-- The nonce the data key is wrapped with. -/
  wrapNonce : Bytes
  /-- A data key has 32 bytes. -/
  dataKey_length : dataKey.length = 32
  nonce_length : nonce.length = nonceLen
  wrapNonce_length : wrapNonce.length = nonceLen
  deriving DecidableEq

/-- A sealed profile. -/
structure Sealed where
  /-- The magic, the nonce and the sealed archive. -/
  bytes : Bytes
  wrappedKey : String
  /-- The digest of the bytes, in hexadecimal. -/
  sha256 : String
  deriving DecidableEq

/-- `hex`: two lower-case digits for each byte. -/
def hex (bytes : Bytes) : String :=
  .ofList (bytes.flatMap fun b => [Nat.digitChar (b.toNat / 16), Nat.digitChar (b.toNat % 16)])

section Text

/-- The bytes of a text, character by character. -/
theorem utf8_ofList (cs : List Char) : utf8 (.ofList cs) = cs.flatMap String.utf8EncodeChar := by
  unfold utf8
  rw [String.toUTF8, String.toByteArray_ofList, List.utf8Encode]
  simp

theorem utf8_append (a b : String) : utf8 (a ++ b) = utf8 a ++ utf8 b := by
  unfold utf8
  simp [String.toUTF8]

/-- A prefix that was put there comes off again. -/
theorem stripPrefix_append (pre rest : String) :
    stripPrefix pre (pre ++ rest) = some (utf8 rest) := by
  unfold stripPrefix
  rw [utf8_append, if_pos (by simp), List.drop_left]

/-- Two digits are two bytes of text that read back as the byte. -/
theorem digits_spell (hi lo : ℕ) (hhi : hi < 16) (hlo : lo < 16) :
    ∃ a b, String.utf8EncodeChar (Nat.digitChar hi) = [a] ∧
      String.utf8EncodeChar (Nat.digitChar lo) = [b] ∧
      hexByte a b = some (.ofNat (16 * hi + lo)) := by
  have h : ∀ hi < 16, ∀ lo < 16,
      String.utf8EncodeChar (Nat.digitChar hi) = [(Nat.digitChar hi).val.toUInt8] ∧
        String.utf8EncodeChar (Nat.digitChar lo) = [(Nat.digitChar lo).val.toUInt8] ∧
        hexByte (Nat.digitChar hi).val.toUInt8 (Nat.digitChar lo).val.toUInt8 =
          some (.ofNat (16 * hi + lo)) := by
    decide
  exact ⟨_, _, h hi hhi lo hlo⟩

/-- `hex` writes two bytes of text for each byte, and they spell it. -/
theorem hex_spells (bytes : Bytes) :
    (utf8 (hex bytes)).length = 2 * bytes.length ∧ hexBytes (utf8 (hex bytes)) = some bytes := by
  unfold hex
  rw [utf8_ofList]
  induction bytes with
  | nil => exact ⟨rfl, rfl⟩
  | cons b rest ih =>
    have hb : b.toNat < 256 := b.toNat_lt
    obtain ⟨hi, lo, hhi, hlo, hbyte⟩ :=
      digits_spell (b.toNat / 16) (b.toNat % 16) (by omega) (by omega)
    have hsum : 16 * (b.toNat / 16) + b.toNat % 16 = b.toNat := Nat.div_add_mod _ _
    rw [hsum, UInt8.ofNat_toNat] at hbyte
    simp only [List.flatMap_cons, hhi, hlo, List.cons_append, List.nil_append, List.length_cons,
      hexBytes, hbyte]
    refine ⟨by omega, ?_⟩
    rw [ih.2]
    rfl

theorem unhex_hex {key : Key} (h : key.length = 32) : unhex (hex key) = some key := by
  obtain ⟨hlen, hbytes⟩ := hex_spells key
  unfold unhex
  rw [if_neg (by omega), hbytes]

end Text

section Sealing

variable (lib : PackLibrary)

/-- Sealing something the size of a key does not fail: the cipher's only
documented failure is a payload beyond what it can address. -/
def SealsKeys : Prop :=
  ∀ key nonce plain, plain.length ≤ 64 → (lib.encrypt key nonce plain).isSome

/-- `keys::wrap` and the body of `Vault::seal`: the nonce, then the ciphertext. -/
def wrap (key wrapNonce plain : Bytes) : Option Bytes :=
  (lib.encrypt key wrapNonce plain).map fun sealed => wrapNonce ++ sealed

/-- `Vault::seal`: the value unchanged when there is no key. -/
def vaultSeal (vault : Vault) (wrapNonce : Bytes) (plain : String) : String :=
  match vault.key with
  | none => plain
  | some key =>
    match wrap lib key wrapNonce (utf8 plain) with
    | some blob => vaultPrefix ++ lib.base64Encode blob
    | none => plain

/-- `Sealer::seal`. Sealing under a shared key stops the program if the cipher
refuses. -/
def sealKey (sealer : Sealer) (wrapNonce : Bytes) (plain : String) : Except AgentError String :=
  match sealer with
  | .machine vault => .ok (vaultSeal lib vault wrapNonce plain)
  | .shared key _ =>
    match wrap lib key wrapNonce (utf8 plain) with
    | some blob => .ok (sharedPrefix ++ lib.base64Encode blob)
    | none => .error (.message "XChaCha20-Poly1305 cannot fail on a key-sized payload")

/-- `Sealer::available`. -/
def available : Sealer → Bool
  | .machine vault => vault.key.isSome
  | .shared _ _ => true

/-- The first stage of `pack`: the archive sealed and its key wrapped. -/
def sealBundle (files : List (Path × Bytes)) (sealer : Sealer) (drawn : Drawn) :
    Except AgentError Sealed :=
  match lib.encrypt drawn.dataKey drawn.nonce (lib.writeArchive files) with
  | none => .error (.message "sealing the bundle failed")
  | some sealed =>
    let bytes := magic ++ drawn.nonce ++ sealed
    match sealKey lib sealer drawn.wrapNonce (hex drawn.dataKey) with
    | .error e => .error e
    | .ok wrappedKey => .ok ⟨bytes, wrappedKey, hex (lib.sha256 bytes)⟩

/-- The second stage of `pack`: refuse when the sealer has no key. -/
def checkSealer (sealer : Sealer) (bundle : Sealed) : Except AgentError Sealed :=
  if available sealer then .ok bundle
  else .error (.message
    ("no credential store, so the bundle key cannot be protected — refusing to " ++
      "produce a bundle that carries its own key"))

/-- A stored key is a data key sealed under some key, behind a prefix. -/
def WrappedUnder (pre : String) (key : Key) (drawn : Drawn) (stored : String) : Prop :=
  ∃ sealed, lib.encrypt key drawn.wrapNonce (utf8 (hex drawn.dataKey)) = some sealed ∧
    stored = pre ++ lib.base64Encode (drawn.wrapNonce ++ sealed)

variable {lib} {drawn : Drawn} {files : List (Path × Bytes)} {sealer : Sealer} {bundle : Sealed}

theorem hex_dataKey_length (drawn : Drawn) : (utf8 (hex drawn.dataKey)).length ≤ 64 := by
  rw [(hex_spells drawn.dataKey).1, drawn.dataKey_length]

/-- A vault that has a key seals a data key under it. -/
theorem vaultSeal_wrapped (hlib : SealsKeys lib) {vault : Vault} {key : Key}
    (hkey : vault.key = some key) (drawn : Drawn) :
    WrappedUnder lib vaultPrefix key drawn
      (vaultSeal lib vault drawn.wrapNonce (hex drawn.dataKey)) := by
  obtain ⟨sealed, hsealed⟩ :=
    Option.isSome_iff_exists.mp (hlib key drawn.wrapNonce _ (hex_dataKey_length drawn))
  refine ⟨sealed, hsealed, ?_⟩
  simp only [vaultSeal, hkey, wrap, hsealed, Option.map_some]

/-- A bundle that is sealed has its archive sealed under the data key, and its
wrapped key is what the sealer made of the data key. -/
theorem sealBundle_ok (h : sealBundle lib files sealer drawn = .ok bundle) :
    ∃ sealed, lib.encrypt drawn.dataKey drawn.nonce (lib.writeArchive files) = some sealed ∧
      bundle.bytes = magic ++ drawn.nonce ++ sealed ∧
      sealKey lib sealer drawn.wrapNonce (hex drawn.dataKey) = .ok bundle.wrappedKey := by
  unfold sealBundle at h
  cases hs : lib.encrypt drawn.dataKey drawn.nonce (lib.writeArchive files) with
  | none => simp [hs] at h
  | some sealed =>
    cases hk : sealKey lib sealer drawn.wrapNonce (hex drawn.dataKey) with
    | error e => simp [hs, hk] at h
    | ok wrappedKey =>
      simp only [hs, hk, Except.ok.injEq] at h
      subst h
      exact ⟨sealed, rfl, rfl, rfl⟩

/-- A bundle passes the second stage as it is, and only when there is a key. -/
theorem checkSealer_ok {bundle' : Sealed} (h : checkSealer sealer bundle = .ok bundle') :
    available sealer = true ∧ bundle' = bundle := by
  unfold checkSealer at h
  split at h
  next ha => exact ⟨ha, (Except.ok.inj h).symm⟩
  · cases h

/-- Under a shared key, what is sealed is wrapped. -/
theorem sealKey_shared {key : Key} {vault : Option Vault} {stored : String}
    (h : sealKey lib (.shared key vault) drawn.wrapNonce (hex drawn.dataKey) = .ok stored) :
    WrappedUnder lib sharedPrefix key drawn stored := by
  unfold sealKey wrap at h
  cases hs : lib.encrypt key drawn.wrapNonce (utf8 (hex drawn.dataKey)) with
  | none => simp [hs] at h
  | some sealed =>
    simp only [hs, Option.map_some, Except.ok.injEq] at h
    exact ⟨sealed, hs, h.symm⟩

end Sealing

section Walking

/-- `fs::read_dir`: the names in a directory. -/
def readDir (disk : Disk) (dir : Path) : List String :=
  (disk.filterMap fun entry =>
    if entry.1.dropLast = dir then entry.1.getLast? else none).dedup

/-- `append_dir`: the files below a directory, by their paths from `root`. The
number bounds how deep the walk goes. -/
def appendDir (disk : Disk) (root : Path) : ℕ → Path → List (Path × Bytes)
  | 0, _ => []
  | depth + 1, below =>
    (readDir disk (root ++ below)).flatMap fun name =>
      if skipsName below.isEmpty name then []
      else if isDir disk (root ++ (below ++ [name])) then
        appendDir disk root depth (below ++ [name])
      else
        match fileAt disk (root ++ (below ++ [name])) with
        | some content => [(below ++ [name], content)]
        | none => []

/-- No path of the disk is longer. -/
def height (disk : Disk) : ℕ := disk.foldr (fun entry n => max entry.1.length n) 0

/-- The files `pack` puts into the archive. -/
def packedFiles (disk : Disk) (profileDir : Path) : List (Path × Bytes) :=
  if isDir disk profileDir then appendDir disk profileDir (height disk) [] else []

/-- `bundle::pack`, the vault read alike both times. -/
def pack (lib : PackLibrary) (disk : Disk) (profileDir : Path) (sealer : Sealer)
    (drawn : Drawn) : Except AgentError Sealed := do
  let bundle ← sealBundle lib (packedFiles disk profileDir) sealer drawn
  checkSealer sealer bundle

end Walking

end FuryBrowser.BundlePack
