import FuryBrowser.BundleUnpack

/-!
# Whose bundles unpack

An ideal cipher opens nothing that was not sealed, so what a server can answer
with is measured against the log of everything that was ever sealed, and by
whom. A bundle is authentic when its wrapped key is in the log under the
profile's shared key, or under this machine's vault key, and its bytes are in
the log under the data key that the wrapped key opens to.

Opening a wrapped key without a prefix is opening a value the vault never
sealed, and the vault hands such a value back as it is.
-/

namespace FuryBrowser.BundleAuthentic

open AgentDisk BundleUnpack

/-- Who sealed something. -/
inductive Author where
  /-- Someone who holds the keys. -/
  | holder
  /-- Anyone else, the server included. -/
  | outsider
  deriving DecidableEq, Repr

/-- One sealing under the cipher. -/
structure Sealing where
  author : Author
  key : Key
  nonce : Bytes
  /-- The ciphertext with its tag. -/
  body : Bytes
  plain : Bytes
  deriving DecidableEq, Repr

/-- An ideal cipher: only what was sealed under a key opens under it. -/
def Ideal (lib : SealLibrary) (log : List Sealing) : Prop :=
  ∀ {key nonce body plain}, lib.decrypt key nonce body = some plain →
    ∃ s ∈ log, s.key = key ∧ s.nonce = nonce ∧ s.body = body ∧ s.plain = plain

/-- A stored key, behind its prefix, is a sealing under `key` of the digits of
`dataKey`. -/
def WrapsKey (lib : SealLibrary) (log : List Sealing) (pre : String) (key dataKey : Key)
    (stored : String) : Prop :=
  ∃ rest blob, stripPrefix pre stored = some rest ∧ lib.base64Decode rest = some blob ∧
    ∃ s ∈ log, s.key = key ∧ s.nonce = blob.take nonceLen ∧ s.body = blob.drop nonceLen ∧
      (fromUtf8 s.plain).bind unhex = some dataKey

/-- The bytes of a bundle are a sealing under the data key. -/
def SealsBytes (log : List Sealing) (dataKey : Key) (sealed : Bytes) : Prop :=
  sealed.take magic.length = magic ∧
    ∃ s ∈ log, s.key = dataKey ∧ s.nonce = (sealed.drop magic.length).take nonceLen ∧
      s.body = sealed.drop (magic.length + nonceLen)

/-- Whether a key is the machine's own. -/
def IsVaultKey (vault : Option Vault) (key : Key) : Prop := vault.bind Vault.key = some key

/-- A bundle that was made by sealing: its data key under the shared key, or for
a bundle from before there were shared keys under the vault's, and its bytes
under the data key. -/
def Authentic (lib : SealLibrary) (log : List Sealing) (key : Key) (vault : Option Vault)
    (sealed : Bytes) (wrappedKey : String) : Prop :=
  ∃ dataKey, SealsBytes log dataKey sealed ∧
    (WrapsKey lib log sharedPrefix key dataKey wrappedKey ∨
      ∃ machineKey, IsVaultKey vault machineKey ∧
        WrapsKey lib log vaultPrefix machineKey dataKey wrappedKey)

/-- The keys a profile's data keys are wrapped under. -/
def Wrapping (key : Key) (vault : Option Vault) (k : Key) : Prop := k = key ∨ IsVaultKey vault k

/-- An outsider holds neither the shared key nor the vault's, nor any data key
that a holder wrapped under one of them. -/
structure HoldsNeither (log : List Sealing) (key : Key) (vault : Option Vault) : Prop where
  /-- Nothing of an outsider's is sealed under the two. -/
  wrapping : ∀ s ∈ log, s.author = .outsider → ¬Wrapping key vault s.key
  /-- Nor under a data key that holders keep behind them. -/
  dataKeys : ∀ w ∈ log, w.author = .holder → Wrapping key vault w.key →
    ∀ dataKey, (fromUtf8 w.plain).bind unhex = some dataKey →
      ∀ s ∈ log, s.author = .outsider → s.key ≠ dataKey

/-- What the holders sealed. -/
def byHolders (log : List Sealing) : List Sealing := log.filter fun s => s.author = .holder

/-- Whatever bytes come with a wrapped key, unpacking them succeeds only for an
authentic bundle, and for an outsider's answer only when holders made it. -/
def UnpacksOnlyAuthentic (key : Key) (vault : Option Vault) (wrappedKey : String) : Prop :=
  ∀ (lib : SealLibrary) (log : List Sealing), Ideal lib log →
    ∀ sealed dest disk n disk',
      unpack lib sealed wrappedKey (.shared key vault) dest disk = .ok n disk' →
      Authentic lib log key vault sealed wrappedKey ∧
        (HoldsNeither log key vault →
          Authentic lib (byHolders log) key vault sealed wrappedKey)

section Opening

variable {lib : SealLibrary} {log : List Sealing} {sealed : Bytes} {wrappedKey : String}
variable {sealer : Sealer} {key dataKey : Key} {vault : Option Vault} {stored pre : String}

/-- A bundle that opens has the magic, a data key that its sealer reads, and
bytes that open under it. -/
theorem openBundle_ok {entries : List (Option TarEntry)}
    (h : openBundle lib sealed wrappedKey sealer = .ok entries) :
    sealed.take magic.length = magic ∧ ∃ dataKey compressed,
      unhex (sealer.open lib wrappedKey) = some dataKey ∧
      lib.decrypt dataKey ((sealed.drop magic.length).take nonceLen)
        (sealed.drop (magic.length + nonceLen)) = some compressed ∧
      lib.readArchive compressed = some entries := by
  unfold openBundle at h
  split at h
  · cases h
  next hm =>
    rw [not_or, not_not] at hm
    cases hk : unhex (sealer.open lib wrappedKey) with
    | none => simp [hk] at h
    | some dataKey =>
      simp only [hk] at h
      split at h
      · cases h
      next compressed hc =>
        split at h
        · cases h
        next entries' he =>
          cases h
          exact ⟨hm.2, dataKey, compressed, rfl, hc, he⟩

/-- The digits of a key do not begin with a prefix of a wrapped one. -/
theorem stripPrefix_of_unhex (hpre : (utf8 pre).take 2 = [102, 117])
    (h : unhex stored = some dataKey) : stripPrefix pre stored = none := by
  unfold stripPrefix
  split
  next hp =>
    obtain ⟨rest, hrest⟩ := List.isPrefixOf_iff_prefix.mp hp
    obtain ⟨a, b, tail, htail⟩ : ∃ a b tail, utf8 pre = a :: b :: tail := by
      match hu : utf8 pre with
      | [] => simp [hu] at hpre
      | [_] => simp [hu] at hpre
      | a :: b :: tail => exact ⟨a, b, tail, rfl⟩
    rw [htail] at hpre hrest
    obtain ⟨rfl, rfl⟩ : a = 102 ∧ b = 117 := by simpa using hpre
    unfold unhex at h
    split at h
    · cases h
    · rw [← hrest] at h
      cases h
  · rfl

theorem sharedPrefix_none (h : unhex stored = some dataKey) :
    stripPrefix sharedPrefix stored = none :=
  stripPrefix_of_unhex rfl h

theorem vaultPrefix_none (h : unhex stored = some dataKey) :
    stripPrefix vaultPrefix stored = none :=
  stripPrefix_of_unhex rfl h

/-- A wrapped value that opens to the digits of a key was sealed. -/
theorem wrapsKey_of_unwrap (hlog : Ideal lib log) {rest blob plain : Bytes} {text : String}
    (hrest : stripPrefix pre stored = some rest) (hblob : lib.base64Decode rest = some blob)
    (hplain : unwrap lib key blob = some plain) (htext : fromUtf8 plain = some text)
    (hkey : unhex text = some dataKey) : WrapsKey lib log pre key dataKey stored := by
  unfold unwrap at hplain
  split at hplain
  · cases hplain
  · obtain ⟨s, hs, hsk, hsn, hsb, hsp⟩ := hlog hplain
    refine ⟨rest, blob, hrest, hblob, s, hs, hsk, hsn, hsb, ?_⟩
    rw [hsp, htext]
    exact hkey

/-- `unwrap_or_default` on a text that turns out to be the digits of a key. -/
theorem eq_some_of_unhex_getD {o : Option String} (h : unhex (o.getD "") = some dataKey) :
    ∃ text, o = some text ∧ unhex text = some dataKey := by
  cases o with
  | none => cases h
  | some text => exact ⟨text, rfl, h⟩

/-- A data key that a shared sealer reads was wrapped under the shared key or
under the vault's, or is the stored text itself. -/
theorem wrapsKey_of_open (hlog : Ideal lib log)
    (h : unhex ((Sealer.shared key vault).open lib stored) = some dataKey) :
    WrapsKey lib log sharedPrefix key dataKey stored ∨
      (∃ machineKey, IsVaultKey vault machineKey ∧
        WrapsKey lib log vaultPrefix machineKey dataKey stored) ∨
      (vault.isSome ∧ unhex stored = some dataKey) := by
  unfold Sealer.open at h
  cases hs : stripPrefix sharedPrefix stored with
  | some rest =>
    left
    simp only [hs] at h
    obtain ⟨text, ho, htext⟩ := eq_some_of_unhex_getD h
    obtain ⟨blob, hblob, ho⟩ := Option.bind_eq_some_iff.mp ho
    obtain ⟨plain, hplain, ho⟩ := Option.bind_eq_some_iff.mp ho
    exact wrapsKey_of_unwrap hlog hs hblob hplain ho htext
  | none =>
    right
    simp only [hs] at h
    cases vault with
    | none => cases h
    | some v =>
      obtain ⟨text, ho, htext⟩ := eq_some_of_unhex_getD (o := v.tryOpen lib stored) h
      unfold Vault.tryOpen at ho
      cases hv : stripPrefix vaultPrefix stored with
      | none =>
        simp only [hv, Option.some.injEq] at ho
        subst ho
        exact .inr ⟨rfl, htext⟩
      | some rest =>
        left
        simp only [hv] at ho
        obtain ⟨machineKey, hkey, ho⟩ := Option.bind_eq_some_iff.mp ho
        obtain ⟨blob, hblob, ho⟩ := Option.bind_eq_some_iff.mp ho
        obtain ⟨plain, hplain, ho⟩ := Option.bind_eq_some_iff.mp ho
        exact ⟨machineKey, hkey, wrapsKey_of_unwrap hlog hv hblob hplain ho htext⟩

end Opening

section Authenticity

variable {lib : SealLibrary} {log : List Sealing} {sealed : Bytes} {wrappedKey pre : String}
variable {key dataKey k : Key} {vault : Option Vault}

theorem mem_byHolders {s : Sealing} : s ∈ byHolders log ↔ s ∈ log ∧ s.author = .holder := by
  simp [byHolders]

/-- What is not an outsider's is a holder's. -/
theorem holder_of_not {s : Sealing} (h : s.author ≠ .outsider) : s.author = .holder := by
  cases hs : s.author with
  | holder => rfl
  | outsider => exact absurd hs h

/-- A data key wrapped under a key that no outsider holds was wrapped by a
holder, and its digits are in no outsider's hands. -/
theorem HoldsNeither.wrapsKey (h : HoldsNeither log key vault) (hk : Wrapping key vault k)
    (hw : WrapsKey lib log pre k dataKey wrappedKey) :
    WrapsKey lib (byHolders log) pre k dataKey wrappedKey ∧
      ∀ s ∈ log, s.author = .outsider → s.key ≠ dataKey := by
  obtain ⟨rest, blob, hrest, hblob, s, hs, hsk, hsn, hsb, hplain⟩ := hw
  have hauthor : s.author = .holder := by
    refine holder_of_not fun hout => h.wrapping s hs hout ?_
    rw [hsk]
    exact hk
  have hkey : Wrapping key vault s.key := by
    rw [hsk]
    exact hk
  exact ⟨⟨rest, blob, hrest, hblob, s, mem_byHolders.mpr ⟨hs, hauthor⟩, hsk, hsn, hsb, hplain⟩,
    h.dataKeys s hs hauthor hkey dataKey hplain⟩

/-- Bytes under a data key that no outsider holds are a holder's. -/
theorem SealsBytes.byHolders (h : SealsBytes log dataKey sealed)
    (hnot : ∀ s ∈ log, s.author = .outsider → s.key ≠ dataKey) :
    SealsBytes (byHolders log) dataKey sealed := by
  obtain ⟨hmagic, s, hs, hsk, hrest⟩ := h
  have hauthor : s.author = .holder := holder_of_not fun hout => hnot s hs hout hsk
  exact ⟨hmagic, s, mem_byHolders.mpr ⟨hs, hauthor⟩, hsk, hrest⟩

/-- An authentic bundle among outsiders who hold neither key is the holders'. -/
theorem Authentic.byHolders (h : Authentic lib log key vault sealed wrappedKey)
    (hneither : HoldsNeither log key vault) :
    Authentic lib (byHolders log) key vault sealed wrappedKey := by
  obtain ⟨dataKey, hbytes, hshared | ⟨machineKey, hmachine, hvault⟩⟩ := h
  · obtain ⟨hwraps, hnot⟩ := hneither.wrapsKey (.inl rfl) hshared
    exact ⟨dataKey, hbytes.byHolders hnot, .inl hwraps⟩
  · obtain ⟨hwraps, hnot⟩ := hneither.wrapsKey (.inr hmachine) hvault
    exact ⟨dataKey, hbytes.byHolders hnot, .inr ⟨machineKey, hmachine, hwraps⟩⟩

/-- A bundle that unpacks is authentic, unless its wrapped key is the digits of a
key and there is a vault to hand them back. -/
theorem authentic_of_unpack (hlog : Ideal lib log) {dest : Path} {disk disk' : Disk} {n : ℕ}
    (h : unpack lib sealed wrappedKey (.shared key vault) dest disk = .ok n disk') :
    Authentic lib log key vault sealed wrappedKey ∨
      (vault.isSome ∧ (unhex wrappedKey).isSome) := by
  obtain ⟨entries, _, hopen, -⟩ := unpack_ok h
  obtain ⟨hmagic, dataKey, compressed, hkey, hdecrypt, -⟩ := openBundle_ok hopen
  obtain ⟨s, hs, hsk, hsn, hsb, -⟩ := hlog hdecrypt
  have hbytes : SealsBytes log dataKey sealed := ⟨hmagic, s, hs, hsk, hsn, hsb⟩
  rcases wrapsKey_of_open hlog hkey with hshared | hvault | ⟨hsome, hbare⟩
  · exact .inl ⟨dataKey, hbytes, .inl hshared⟩
  · exact .inl ⟨dataKey, hbytes, .inr hvault⟩
  · exact .inr ⟨hsome, hbare ▸ rfl⟩

/-- A wrapped key with no prefix is never authentic. -/
theorem not_authentic_of_unhex (h : unhex wrappedKey = some dataKey) :
    ¬Authentic lib log key vault sealed wrappedKey := by
  rintro ⟨_, -, ⟨_, _, hrest, -⟩ | ⟨_, -, _, _, hrest, -⟩⟩
  · rw [sharedPrefix_none h] at hrest
    cases hrest
  · rw [vaultPrefix_none h] at hrest
    cases hrest

/-- A world in which one outsider sealed an empty archive under a key of their
choice, and nobody sealed anything else. -/
def outsiderLibrary (dataKey : Key) : SealLibrary where
  decrypt key nonce body :=
    if key = dataKey ∧ nonce = List.replicate nonceLen 0 ∧ body = [] then some [] else none
  base64Decode _ := none
  readArchive _ := some []
  subkey key _ _ := key
  keyFingerprint _ := ""

def outsiderLog (dataKey : Key) : List Sealing :=
  [⟨.outsider, dataKey, List.replicate nonceLen 0, [], []⟩]

/-- The bundle they send: the magic, the nonce, and no ciphertext. -/
def outsiderBundle : Bytes := magic ++ List.replicate nonceLen 0

theorem outsiderLibrary_ideal (dataKey : Key) :
    Ideal (outsiderLibrary dataKey) (outsiderLog dataKey) := by
  intro key nonce body plain h
  obtain ⟨⟨rfl, rfl, rfl⟩, hplain⟩ := Option.ite_none_right_eq_some.mp h
  exact ⟨_, List.mem_singleton_self _, rfl, rfl, rfl, Option.some.inj hplain⟩

/-- With a vault beside the shared key, the outsider's bundle unpacks under the
digits of their own key. -/
theorem outsiderBundle_unpacks {v : Vault} (key : Key) (h : unhex wrappedKey = some dataKey) :
    unpack (outsiderLibrary dataKey) outsiderBundle wrappedKey (.shared key (some v)) [] [] =
      .ok 0 [] := by
  have hkey : unhex ((Sealer.shared key (some v)).open (outsiderLibrary dataKey) wrappedKey) =
      some dataKey := by
    unfold Sealer.open
    simp only [sharedPrefix_none h, Option.map_some, Option.getD_some, Vault.openValue,
      Vault.tryOpen, vaultPrefix_none h]
    exact h
  have hopen : openBundle (outsiderLibrary dataKey) outsiderBundle wrappedKey
      (.shared key (some v)) = .ok [] := by
    have hshape : ¬(outsiderBundle.length < magic.length + nonceLen ∨
        outsiderBundle.take magic.length ≠ magic) := by
      decide
    have hnonce : (outsiderBundle.drop magic.length).take nonceLen = List.replicate nonceLen 0 := by
      decide
    have hbody : outsiderBundle.drop (magic.length + nonceLen) = [] := by
      decide
    unfold openBundle
    rw [if_neg hshape, hkey]
    simp only [hnonce, hbody]
    simp [outsiderLibrary]
  unfold unpack
  rw [hopen]
  rfl

/-- Unpacking a team bundle succeeds for authentic bundles only, exactly when no
vault comes with the shared key or the wrapped key is not the digits of a key. -/
theorem unpacksOnlyAuthentic_iff (key : Key) (vault : Option Vault) (wrappedKey : String) :
    UnpacksOnlyAuthentic key vault wrappedKey ↔ vault = none ∨ unhex wrappedKey = none := by
  constructor
  · intro h
    by_contra hne
    rw [not_or, ← ne_eq, Option.ne_none_iff_exists', ← ne_eq, Option.ne_none_iff_exists'] at hne
    obtain ⟨⟨v, rfl⟩, dataKey, hdata⟩ := hne
    have hauth := h _ _ (outsiderLibrary_ideal dataKey) _ _ _ _ _
      (outsiderBundle_unpacks key hdata)
    exact not_authentic_of_unhex hdata hauth.1
  · intro hsafe lib log hlog sealed dest disk n disk' hunpack
    rcases authentic_of_unpack hlog hunpack with hauth | ⟨hsome, hbare⟩
    · exact ⟨hauth, hauth.byHolders⟩
    · rcases hsafe with rfl | hnone
      · cases hsome
      · rw [hnone] at hbare
        cases hbare

/-- Sixty-four zeros for a wrapped key: an outsider's bundle unpacks on every
machine that has a vault. -/
theorem outsider_unpacks :
    ¬∀ (key : Key) (vault : Option Vault) (wrappedKey : String),
      UnpacksOnlyAuthentic key vault wrappedKey := by
  intro h
  have hdata : unhex (.ofList (List.replicate 64 '0')) = some (List.replicate 32 0) := by
    decide
  have hauth := h (List.replicate 32 1) (some ⟨none⟩) (.ofList (List.replicate 64 '0')) _ _
    (outsiderLibrary_ideal (List.replicate 32 0)) _ _ _ _ _ (outsiderBundle_unpacks _ hdata)
  exact not_authentic_of_unhex hdata hauth.1

end Authenticity

end FuryBrowser.BundleAuthentic
