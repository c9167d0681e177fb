import FuryBrowser.BundleRoundTrip
import FuryBrowser.LocalStore
import FuryBrowser.VaultKey

/-!
# Saving what was shown

A vault without its key shows a sealed secret as nothing, and a window sends back what it was
shown. Between the listing and the save the vault may lose its key or find it again. A secret
survives a save that shows it, if it can be sealed again; and of a proxy also one that does not,
while the vault cannot open it.
-/

namespace FuryBrowser.SecretsKept

open RowTable GuardedRuns AgentDisk BundleUnpack BundlePack BundleRoundTrip LocalStore
open VaultKey (KeyState)

variable {ω : Type}

/-- What a save draws. -/
structure Nonces where
  password : Bytes
  /-- For the link or the seed. -/
  other : Bytes
  /-- Nonces are of one length. -/
  lengths : password.length = nonceLen ∧ other.length = nonceLen

/-- A store, its vault, and what its windows were shown. -/
structure State (ω : Type) where
  db : Db ω
  vault : KeyState
  /-- The proxies that were listed. -/
  proxies : List Proxy
  /-- The logins that were listed. -/
  logins : List Credential
  /-- The id of a proxy is its primary key. -/
  uniqueProxies : KeyUnique ProxyRow.id db.proxies
  uniqueLogins : KeyUnique CredentialRow.id db.credentials

/-- What can happen. Where the vault is read, the keychain gives the key or refuses it. -/
inductive Label
  /-- Any other caller reads the key. -/
  | read (given : Bool)
  /-- The first half of a retry; the second half reads. -/
  | retry
  /-- The agent starts again. -/
  | restart
  /-- A window lists the proxies. -/
  | listProxies (given : Bool)
  /-- A window lists the logins of a profile. -/
  | listLogins (profile : String) (given : Bool)
  /-- A window saves a proxy as it was shown. -/
  | saveProxy (p : Proxy) (new : String) (nonces : Nonces) (given : Bool)
  /-- A window saves a login as it was shown. -/
  | saveLogin (c : Credential) (new : String) (nonces : Nonces) (given : Bool)

/-- A stored value is sealed. -/
def isSealed (stored : Option String) : Bool :=
  stored.any fun v => (stripPrefix vaultPrefix v).isSome

/-- The vault after a caller, which asks for the key if it needs it. -/
def readIf (needed given : Bool) (key : Key) (vault : KeyState) : KeyState :=
  if needed then vault.read (if given then some key else none) else vault

/-- Listing the proxies needs the key. -/
def listingReads (db : Db ω) : Bool :=
  db.proxies.any fun x => !x.deleted && (isSealed x.password || isSealed x.rotateUrl)

/-- So does listing the logins of a profile. -/
def loginsRead (db : Db ω) (profile : String) : Bool :=
  db.credentials.any fun x => x.profileId = profile && (isSealed x.password || isSealed x.totp)

/-- Saving a proxy needs the key: to seal a value, or to see whether the old one opens. -/
def proxyReads (db : Db ω) (p : Proxy) : Bool :=
  p.password.isSome || p.rotateUrl.isSome ||
    db.proxies.any fun x =>
      p.id ≠ "" && x.id = p.id && (isSealed x.password || isSealed x.rotateUrl)

/-- Saving a login needs it to seal. -/
def loginReads (c : Credential) : Bool :=
  match Db.normalTotp c.totp with
  | .error _ => false
  | .ok totp => (c.password.filter fun v => v ≠ "").isSome || totp.isSome

section Unique

variable {db : Db ω}

theorem upsertProxy_unique {lib : PackLibrary} {vault : Vault} {new : String}
    {nonces : Bytes × Bytes} {p : Proxy} (h : KeyUnique ProxyRow.id db.proxies) :
    KeyUnique ProxyRow.id (db.upsertProxy lib vault new nonces p).2.proxies := by
  obtain ⟨id, password, rotateUrl, -, -, ⟨-, heq⟩ | ⟨hnew, heq⟩⟩ :=
    db.upsertProxy_cases lib vault new nonces p
  · rw [heq]
    exact h.updateWhere fun _ _ => rfl
  · rw [heq]
    exact h.cons hnew

theorem upsertCredential_cases {lib : PackLibrary} {vault : Vault} {new id : String}
    {nonces : Bytes × Bytes} {c : Credential} {after : Db ω}
    (h : db.upsertCredential lib vault new nonces c = some (id, after)) :
    id = (if c.id = "" then new else c.id) ∧ after.proxies = db.proxies ∧
      ∃ totp, Db.normalTotp c.totp = .ok totp ∧
        (after.credentials = updateWhere (fun x => x.id = id) (Db.credentialSavedOver c
            ((c.password.filter fun v => v ≠ "").map (vaultSeal lib vault nonces.1))
            (totp.map (vaultSeal lib vault nonces.2))) db.credentials ∨
          (∀ x ∈ db.credentials, x.id ≠ id) ∧
            ∃ x : CredentialRow, x.id = id ∧ after.credentials = x :: db.credentials) := by
  simp only [Db.upsertCredential] at h
  cases ht : Db.normalTotp c.totp with
  | error e =>
    rw [ht] at h
    cases h
  | ok totp =>
    rw [ht] at h
    dsimp only at h
    generalize hid : (if c.id = "" then new else c.id) = chosen at h
    split at h
    · obtain ⟨rfl, rfl⟩ := Prod.mk.inj (Option.some.inj h)
      exact ⟨rfl, rfl, totp, rfl, .inl rfl⟩
    · rename_i hnew
      split at h
      · obtain ⟨rfl, rfl⟩ := Prod.mk.inj (Option.some.inj h)
        exact ⟨rfl, rfl, totp, rfl, .inr ⟨by simpa using hnew, _, rfl, rfl⟩⟩
      · cases h

theorem upsertCredential_unique {lib : PackLibrary} {vault : Vault} {new id : String}
    {nonces : Bytes × Bytes} {c : Credential} {after : Db ω}
    (h : KeyUnique CredentialRow.id db.credentials)
    (hs : db.upsertCredential lib vault new nonces c = some (id, after)) :
    KeyUnique CredentialRow.id after.credentials := by
  obtain ⟨-, -, totp, -, heq | ⟨hnew, x, hx, heq⟩⟩ := upsertCredential_cases hs
  · rw [heq]
    exact h.updateWhere fun _ _ => rfl
  · rw [heq]
    exact h.cons fun s hs => hx ▸ hnew s hs

end Unique

section Steps

variable (lib : PackLibrary) (key : Key)

/-- One step. What was not listed is not saved, and a drawn id is new. -/
def step (s : State ω) : Label → Option (State ω)
  | .read given => some { s with vault := readIf true given key s.vault }
  | .retry => some { s with vault := s.vault.retry }
  | .restart => some { s with vault := .unread }
  | .listProxies given =>
    let vault := readIf (listingReads s.db) given key s.vault
    some { s with vault := vault, proxies := s.db.proxiesList lib vault.vault ++ s.proxies }
  | .listLogins profile given =>
    let vault := readIf (loginsRead s.db profile) given key s.vault
    some { s with
      vault := vault, logins := s.db.credentialsList lib vault.vault profile ++ s.logins }
  | .saveProxy p new nonces given =>
    let vault := readIf (proxyReads s.db p) given key s.vault
    if p ∈ s.proxies ∧ ∀ x ∈ s.db.proxies, x.id ≠ new then
      some {
        db := (s.db.upsertProxy lib vault.vault new (nonces.password, nonces.other) p).2
        vault := vault
        proxies := s.proxies
        logins := s.logins
        uniqueProxies := upsertProxy_unique s.uniqueProxies
        uniqueLogins := s.uniqueLogins }
    else none
  | .saveLogin c new nonces given =>
    let vault := readIf (loginReads c) given key s.vault
    if c ∈ s.logins ∧ ∀ x ∈ s.db.credentials, x.id ≠ new then
      match hs : s.db.upsertCredential lib vault.vault new (nonces.password, nonces.other) c with
      | none => some { s with vault := vault }
      | some (_, after) =>
        some {
          db := after
          vault := vault
          proxies := s.proxies
          logins := s.logins
          uniqueProxies := by rw [(upsertCredential_cases hs).2.1]; exact s.uniqueProxies
          uniqueLogins := upsertCredential_unique s.uniqueLogins hs }
    else none

/-- A state of some store before any window was shown anything: the vault is not read. -/
def Starts (s : State ω) : Prop := s.vault = .unread ∧ s.proxies = [] ∧ s.logins = []

/-- What a stored value opens to under the machine's key. -/
def opened (stored : Option String) : Option String :=
  stored.bind (Vault.tryOpen lib.toSealLibrary ⟨some key⟩)

/-- The password of a proxy, where it opens. -/
def proxyPassword (db : Db ω) (id : String) : Option String :=
  (lookup ProxyRow.id db.proxies id).bind fun x => opened lib key x.password

/-- The password of a login. -/
def loginPassword (db : Db ω) (id : String) : Option String :=
  (lookup CredentialRow.id db.credentials id).bind fun x => opened lib key x.password

/-- And its seed. -/
def loginTotp (db : Db ω) (id : String) : Option String :=
  (lookup CredentialRow.id db.credentials id).bind fun x => opened lib key x.totp

/-- Every secret that opened before opens to the same after. -/
structure Kept (before after : Db ω) : Prop where
  /-- The passwords of proxies. -/
  proxies : ∀ id v, proxyPassword lib key before id = some v →
    proxyPassword lib key after id = some v
  /-- The passwords of logins. -/
  passwords : ∀ id v, loginPassword lib key before id = some v →
    loginPassword lib key after id = some v
  totps : ∀ id v, loginTotp lib key before id = some v → loginTotp lib key after id = some v

/-- Stored by this vault, a value opens again: it is sealed, or does not look as if it were. -/
def Storable (vault : Vault) (nonce : Bytes) (v : String) : Prop :=
  (vault.key.bind fun key => wrap lib key nonce (utf8 v)).isSome = true ∨
    stripPrefix vaultPrefix v = none

/-- A save of what was shown leaves the secrets. A secret shown as nothing is one that the vault
cannot open now, for a proxy, or that does not open at all, for a login; a password that was shown
can be stored, and a seed is the link it is normalised to. -/
def Careful (s : State ω) : Label → Prop
  | .saveProxy p _ nonces given =>
    let vault := (readIf (proxyReads s.db p) given key s.vault).vault
    match p.password.filter fun v => v ≠ "" with
    | some v => Storable lib vault nonces.password v
    | none => ∀ x ∈ s.db.proxies, x.id = p.id → ∀ v ∈ x.password,
        ∀ plain ∈ vault.tryOpen lib.toSealLibrary v, plain = ""
  | .saveLogin c _ nonces given =>
    let vault := (readIf (loginReads c) given key s.vault).vault
    ∀ totp, Db.normalTotp c.totp = .ok totp →
      (match c.password.filter fun v => v ≠ "" with
        | some v => Storable lib vault nonces.password v
        | none => ∀ x ∈ s.db.credentials, x.id = c.id → opened lib key x.password = none) ∧
      match totp with
      | some link => c.totp = some link
      | none => ∀ x ∈ s.db.credentials, x.id = c.id → opened lib key x.totp = none
  | _ => True

end Steps

section Sealing

variable {lib : PackLibrary} {key : Key} {vault : Vault} {nonce : Bytes} {stored v w : String}

/-- Of what opens under the machine's key, this vault opens the same or nothing. -/
theorem tryOpen_either (hvault : vault.key = none ∨ vault.key = some key)
    (h : opened lib key (some stored) = some v) :
    vault.tryOpen lib.toSealLibrary stored = some v ∨
      vault.tryOpen lib.toSealLibrary stored = none := by
  obtain ⟨held⟩ := vault
  rcases hvault with hno | hkey
  · dsimp only at hno
    subst hno
    change Vault.tryOpen lib.toSealLibrary ⟨some key⟩ stored = some v at h
    unfold Vault.tryOpen at h ⊢
    split
    · rename_i hplain
      rw [hplain] at h
      exact .inl h
    · exact .inr rfl
  · dsimp only at hkey
    subst hkey
    exact .inl h

/-- So a listing shows it, or nothing. -/
theorem openValue_either (hvault : vault.key = none ∨ vault.key = some key)
    (h : opened lib key (some stored) = some v) :
    vault.openValue lib.toSealLibrary stored = v ∨
      vault.openValue lib.toSealLibrary stored = "" := by
  unfold Vault.openValue
  rcases tryOpen_either hvault h with hsame | hnone
  · rw [hsame]
    exact .inl rfl
  · rw [hnone]
    exact .inr rfl

/-- What a listing shows of a stored value that opens. -/
theorem shown_either (hvault : vault.key = none ∨ vault.key = some key) {value : Option String}
    (h : opened lib key value = some v) :
    value.map (vault.openValue lib.toSealLibrary) = some v ∨
      value.map (vault.openValue lib.toSealLibrary) = some "" := by
  obtain ⟨stored, rfl, -⟩ := Option.bind_eq_some_iff.mp h
  rcases openValue_either hvault h with hsame | hblank
  · exact .inl (congrArg some hsame)
  · exact .inr (congrArg some hblank)

theorem opened_plain (h : stripPrefix vaultPrefix w = none) :
    opened lib key (some w) = some w := by
  change Vault.tryOpen lib.toSealLibrary ⟨some key⟩ w = some w
  unfold Vault.tryOpen
  rw [h]

theorem opened_vaultSeal (hlib : Inverts lib) (hn : nonce.length = nonceLen)
    (hvault : vault.key = none ∨ vault.key = some key) (hw : Storable lib vault nonce w) :
    opened lib key (some (vaultSeal lib vault nonce w)) = some w := by
  have hout : (vault.key.bind fun key => wrap lib key nonce (utf8 w)) = none →
      vaultSeal lib vault nonce w = w := by
    intro hnone
    unfold vaultSeal
    cases hk : vault.key with
    | none => rfl
    | some k =>
      rw [hk, Option.bind_some] at hnone
      dsimp only
      rw [hnone]
  cases hwrapped : vault.key.bind fun key => wrap lib key nonce (utf8 w) with
  | none =>
    rw [hout hwrapped]
    refine opened_plain (hw.resolve_left ?_)
    rw [hwrapped]
    simp
  | some blob =>
    obtain ⟨k, hk, hblob⟩ := Option.bind_eq_some_iff.mp hwrapped
    obtain rfl : k = key := by
      rcases hvault with hno | hkey
      · rw [hno] at hk
        cases hk
      · exact Option.some.inj (hk.symm.trans hkey)
    obtain ⟨sealed, hsealed, rfl⟩ := Option.map_eq_some_iff.mp hblob
    obtain ⟨hplain, hlength⟩ := hlib.decrypt hsealed
    have hlong : ¬(nonce ++ sealed).length ≤ nonceLen := by
      rw [List.length_append, hn]
      omega
    change Vault.tryOpen lib.toSealLibrary ⟨some k⟩ _ = some w
    simp only [vaultSeal, hk, hblob, Vault.tryOpen, stripPrefix_append, Option.bind_eq_bind,
      Option.bind_some, hlib.base64, unwrap, hlong, if_false]
    rw [List.take_left' hn, List.drop_left' hn, hplain, Option.bind_some, fromUtf8_utf8]

theorem storable_empty : Storable lib vault nonce "" := .inr (by decide)

/-- A seed as a link does not look sealed. -/
theorem storable_link (totp : Totp.Totp) : Storable lib vault nonce (.ofList totp.toUri) := by
  refine .inr ?_
  have hbytes : utf8 (.ofList totp.toUri) = 111 :: (utf8 (.ofList totp.toUri)).tail := by
    rw [utf8_ofList, Totp.Totp.toUri]
    rfl
  have hmark : utf8 vaultPrefix = 102 :: (utf8 vaultPrefix).tail := by decide
  have hno : (utf8 vaultPrefix).isPrefixOf (utf8 (.ofList totp.toUri)) = false := by
    rw [hmark, hbytes]
    rfl
  unfold stripPrefix
  rw [hno, if_neg (by simp)]

theorem normalTotp_link {incoming : Option String} {link : String}
    (h : Db.normalTotp incoming = .ok (some link)) :
    ∃ totp : Totp.Totp, link = .ofList totp.toUri := by
  unfold Db.normalTotp at h
  split at h
  · cases h
  · rename_i raw hraw
    cases hparsed : Totp.parse raw with
    | error e =>
      rw [hparsed] at h
      cases h
    | ok totp =>
      rw [hparsed] at h
      exact ⟨totp, (Option.some.inj (Except.ok.inj h)).symm⟩

/-- The password that a careful save of a proxy stores opens as before. -/
theorem opened_secret (hlib : Inverts lib) (hn : nonce.length = nonceLen)
    (hvault : vault.key = none ∨ vault.key = some key) {shown old : Option String}
    (hold : opened lib key old = some v) (hshown : shown = some v ∨ shown = some "")
    (hnew : ∀ w, shown.filter (fun w => w ≠ "") = some w → Storable lib vault nonce w)
    (hblank : shown.filter (fun w => w ≠ "") = none → ∀ o ∈ old,
      ∀ plain ∈ vault.tryOpen lib.toSealLibrary o, plain = "") :
    opened lib key (Db.secret lib vault nonce shown old) = some v := by
  obtain ⟨stored, rfl, -⟩ := Option.bind_eq_some_iff.mp hold
  by_cases hv : shown = some v ∧ v ≠ ""
  · obtain ⟨rfl, hv⟩ := hv
    have hfilter : (some v).filter (fun w => decide (w ≠ "")) = some v := by simp [hv]
    simp only [Db.secret, hfilter]
    exact opened_vaultSeal hlib hn hvault (hnew v hfilter)
  · obtain rfl : shown = some "" := by
      refine hshown.elim (fun h => ?_) id
      have hempty : v = "" := by
        by_contra hne
        exact hv ⟨h, hne⟩
      rw [h, hempty]
    have hfilter : (some "").filter (fun w => decide (w ≠ "")) = none := by simp
    simp only [Db.secret, hfilter]
    split
    · exact hold
    · rename_i hopens
      rcases tryOpen_either hvault hold with hsame | hnone
      · rw [hblank hfilter stored rfl v hsame]
        exact opened_vaultSeal hlib hn hvault storable_empty
      · exact absurd (by rw [hnone]; rfl) hopens

/-- The password that a careful save of a login stores opens as before. -/
theorem opened_loginPassword (hlib : Inverts lib) (hn : nonce.length = nonceLen)
    (hvault : vault.key = none ∨ vault.key = some key) {shown old : Option String}
    (hold : opened lib key old = some v) (hshown : shown = some v ∨ shown = some "")
    (hnew : ∀ w, shown.filter (fun w => w ≠ "") = some w → Storable lib vault nonce w)
    (hblank : shown.filter (fun w => w ≠ "") = none → opened lib key old = none) :
    opened lib key ((shown.filter fun w => w ≠ "").map (vaultSeal lib vault nonce)) = some v := by
  cases hfilter : shown.filter fun w => decide (w ≠ "") with
  | none =>
    rw [hblank hfilter] at hold
    cases hold
  | some w =>
    obtain ⟨hw, hne⟩ := Option.filter_eq_some_iff.mp hfilter
    obtain rfl : w = v := by
      rcases hshown with hsame | hempty
      · exact Option.some.inj (hw.symm.trans hsame)
      · have hw' : w = "" := Option.some.inj (hw.symm.trans hempty)
        simp [hw'] at hne
    exact opened_vaultSeal hlib hn hvault (hnew w hfilter)

/-- So does its seed, where what was shown is the link it is normalised to. -/
theorem opened_loginTotp (hlib : Inverts lib) (hn : nonce.length = nonceLen)
    (hvault : vault.key = none ∨ vault.key = some key) {shown old totp : Option String}
    (hold : opened lib key old = some v) (hshown : shown = some v ∨ shown = some "")
    (htotp : Db.normalTotp shown = .ok totp) (hnew : ∀ link, totp = some link → shown = some link)
    (hblank : totp = none → opened lib key old = none) :
    opened lib key (totp.map (vaultSeal lib vault nonce)) = some v := by
  cases totp with
  | none =>
    rw [hblank rfl] at hold
    cases hold
  | some link =>
    obtain ⟨parsed, hlink⟩ := normalTotp_link htotp
    have hlinked := hnew link rfl
    obtain rfl : link = v := by
      rcases hshown with hsame | hempty
      · exact Option.some.inj (hlinked.symm.trans hsame)
      · rw [hempty] at htotp
        cases htotp
    rw [Option.map_some, hlink]
    exact opened_vaultSeal hlib hn hvault (storable_link parsed)

end Sealing

section Runs

variable {lib : PackLibrary} {key : Key} {before : Db ω} {s : State ω} {given needed : Bool}

/-- What a run keeps: the vault has the machine's key or none, secrets open to what they opened to,
and a window was shown that or nothing. -/
structure Inv (lib : PackLibrary) (key : Key) (before : Db ω) (s : State ω) : Prop where
  /-- The vault has no other key. -/
  machine : s.vault.vault.key = none ∨ s.vault.vault.key = some key
  kept : Kept lib key before s.db
  /-- What was shown of the proxies. -/
  proxies : ∀ p ∈ s.proxies, ∀ v, proxyPassword lib key before p.id = some v →
    p.password = some v ∨ p.password = some ""
  /-- Of the passwords of logins. -/
  passwords : ∀ c ∈ s.logins, ∀ v, loginPassword lib key before c.id = some v →
    c.password = some v ∨ c.password = some ""
  totps : ∀ c ∈ s.logins, ∀ v, loginTotp lib key before c.id = some v →
    c.totp = some v ∨ c.totp = some ""

theorem inv_start (h : Starts s) : Inv lib key s.db s where
  machine := by rw [h.1]; exact .inl rfl
  kept := ⟨fun _ _ h => h, fun _ _ h => h, fun _ _ h => h⟩
  proxies := by rw [h.2.1]; exact fun p hp => by cases hp
  passwords := by rw [h.2.2]; exact fun c hc => by cases hc
  totps := by rw [h.2.2]; exact fun c hc => by cases hc

variable (needed given) in
/-- The keychain gives the machine's key. -/
theorem readIf_machine {vault : KeyState}
    (h : vault.vault.key = none ∨ vault.vault.key = some key) :
    (readIf needed given key vault).vault.key = none ∨
      (readIf needed given key vault).vault.key = some key := by
  cases needed with
  | false => exact h
  | true =>
    cases vault with
    | haveKey k => exact h
    | failed => exact .inl rfl
    | unread =>
      cases given with
      | true => exact .inr rfl
      | false => exact .inl rfl

/-- Of a row that its id finds, the lookup is the row. -/
theorem proxyPassword_of_mem {db : Db ω} (hu : KeyUnique ProxyRow.id db.proxies) {x : ProxyRow}
    (hx : x ∈ db.proxies) : proxyPassword lib key db x.id = opened lib key x.password := by
  unfold proxyPassword
  rw [lookup_of_mem hu hx, Option.bind_some]

theorem login_of_mem {db : Db ω} (hu : KeyUnique CredentialRow.id db.credentials)
    {x : CredentialRow} (hx : x ∈ db.credentials) :
    loginPassword lib key db x.id = opened lib key x.password ∧
      loginTotp lib key db x.id = opened lib key x.totp := by
  unfold loginPassword loginTotp
  rw [lookup_of_mem hu hx, Option.bind_some, Option.bind_some]
  exact ⟨rfl, rfl⟩

/-- A listing of the proxies shows each secret, or nothing. -/
theorem Inv.listProxies (h : Inv lib key before s) {vault : KeyState}
    (hv : vault.vault.key = none ∨ vault.vault.key = some key) :
    Inv lib key before { s with
      vault := vault, proxies := s.db.proxiesList lib vault.vault ++ s.proxies } where
  machine := hv
  kept := h.kept
  passwords := h.passwords
  totps := h.totps
  proxies := by
    intro p hp v hopens
    rcases List.mem_append.mp hp with hnew | hold
    · obtain ⟨x, hx, rfl⟩ := List.mem_map.mp hnew
      have hrow := h.kept.proxies x.id v hopens
      rw [proxyPassword_of_mem s.uniqueProxies (List.mem_of_mem_filter hx)] at hrow
      exact shown_either hv hrow
    · exact h.proxies p hold v hopens

theorem Inv.listLogins (h : Inv lib key before s) {vault : KeyState}
    (hv : vault.vault.key = none ∨ vault.vault.key = some key) (profile : String) :
    Inv lib key before { s with
      vault := vault, logins := s.db.credentialsList lib vault.vault profile ++ s.logins } where
  machine := hv
  kept := h.kept
  proxies := h.proxies
  passwords := by
    intro c hc v hopens
    rcases List.mem_append.mp hc with hnew | hold
    · obtain ⟨x, hx, rfl⟩ := List.mem_map.mp hnew
      have hrow := h.kept.passwords x.id v hopens
      rw [(login_of_mem s.uniqueLogins (List.mem_of_mem_filter hx)).1] at hrow
      exact shown_either hv hrow
    · exact h.passwords c hold v hopens
  totps := by
    intro c hc v hopens
    rcases List.mem_append.mp hc with hnew | hold
    · obtain ⟨x, hx, rfl⟩ := List.mem_map.mp hnew
      have hrow := h.kept.totps x.id v hopens
      rw [(login_of_mem s.uniqueLogins (List.mem_of_mem_filter hx)).2] at hrow
      exact shown_either hv hrow
    · exact h.totps c hold v hopens

/-- A row that is found before an upsert is found after it, saved over where it has the id saved. -/
theorem lookup_upserted {ρ : Type} {rowId : ρ → String} (overwritten : ρ → ρ) {rows : List ρ}
    (after : List ρ) {x : ρ} {id k : String} (hkey : ∀ r, rowId (overwritten r) = rowId r)
    (hafter : after = updateWhere (fun r => rowId r = id) overwritten rows ∨
      (∀ r ∈ rows, rowId r ≠ id) ∧ ∃ row, rowId row = id ∧ after = row :: rows)
    (hx : lookup rowId rows k = some x) :
    lookup rowId after k = some (if rowId x = id then overwritten x else x) := by
  rcases hafter with rfl | ⟨hfree, row, rfl, rfl⟩
  · rw [lookup_updateWhere fun r _ => hkey r, hx, Option.map_some]
    simp only [decide_eq_true_eq]
  · obtain ⟨hin, rfl⟩ := lookup_some hx
    rw [if_neg (hfree x hin)]
    unfold lookup at hx ⊢
    rw [List.find?_cons_of_neg, hx]
    simpa using fun heq => hfree x hin heq.symm

/-- A row that is saved over has the id that was shown: no row has the new one. -/
theorem shown_id {ρ : Type} {rowId : ρ → String} {rows : List ρ} {x : ρ} {id shown new : String}
    (hchosen : id = if shown = "" then new else shown) (hnew : ∀ r ∈ rows, rowId r ≠ new)
    (hx : x ∈ rows) (hid : rowId x = id) : shown ≠ "" ∧ rowId x = shown := by
  by_cases hempty : shown = ""
  · rw [if_pos hempty] at hchosen
    exact absurd (hid.trans hchosen) (hnew x hx)
  · rw [if_neg hempty] at hchosen
    exact ⟨hempty, hid.trans hchosen⟩

/-- A careful save of a proxy that was shown keeps its password, and the others. -/
theorem Inv.saveProxy (hlib : Inverts lib) (h : Inv lib key before s) {p : Proxy} {new : String}
    {nonces : Nonces} (hp : p ∈ s.proxies) (hnew : ∀ x ∈ s.db.proxies, x.id ≠ new)
    (hg : Careful lib key s (.saveProxy p new nonces given)) :
    Kept lib key before (s.db.upsertProxy lib
      (readIf (proxyReads s.db p) given key s.vault).vault new (nonces.password, nonces.other)
      p).2 where
  passwords := h.kept.passwords
  totps := h.kept.totps
  proxies := by
    intro id v hopens
    have hv := readIf_machine given (proxyReads s.db p) h.machine
    simp only [Careful] at hg
    generalize (readIf (proxyReads s.db p) given key s.vault).vault = vault at hv hg ⊢
    obtain ⟨x, hx, hold⟩ := Option.bind_eq_some_iff.mp (h.kept.proxies id v hopens)
    obtain ⟨hxin, rfl⟩ := lookup_some hx
    obtain ⟨id, password, rotateUrl, hchosen, hpassword, hcases⟩ :=
      s.db.upsertProxy_cases lib vault new (nonces.password, nonces.other) p
    have hfound := lookup_upserted (Db.proxySavedOver p password rotateUrl)
      (s.db.upsertProxy lib vault new (nonces.password, nonces.other) p).2.proxies
      (fun _ => rfl) (hcases.imp (fun ⟨_, heq⟩ => by rw [heq])
        fun ⟨hfree, heq⟩ => ⟨hfree, _, rfl, by rw [heq]⟩) hx
    unfold proxyPassword
    rw [hfound, Option.bind_some]
    split
    · rename_i hid
      obtain ⟨hnamed, hown⟩ := shown_id hchosen hnew hxin hid
      rw [if_neg hnamed, ← hid, hx, Option.bind_some] at hpassword
      change opened lib key password = some v
      rw [hpassword]
      refine opened_secret hlib nonces.lengths.1 hv hold (h.proxies p hp v (hown ▸ hopens)) ?_ ?_
      · intro w hw
        simpa only [hw] using hg
      · intro hblank o ho plain hplain
        simp only [hblank] at hg
        exact hg x hxin hown o ho plain hplain
    · exact hold

/-- A careful save of a login keeps its password and its seed, and those of the others. -/
theorem Inv.saveLogin (hlib : Inverts lib) (h : Inv lib key before s) {c : Credential}
    {new id : String} {nonces : Nonces} {after : Db ω} (hc : c ∈ s.logins)
    (hnew : ∀ x ∈ s.db.credentials, x.id ≠ new)
    (hs : s.db.upsertCredential lib (readIf (loginReads c) given key s.vault).vault new
      (nonces.password, nonces.other) c = some (id, after))
    (hg : Careful lib key s (.saveLogin c new nonces given)) : Kept lib key before after := by
  have hv := readIf_machine given (loginReads c) h.machine
  simp only [Careful] at hg
  generalize (readIf (loginReads c) given key s.vault).vault = vault at hs hv hg
  obtain ⟨hchosen, hproxies, totp, htotp, hafter⟩ := upsertCredential_cases hs
  obtain ⟨hpassword, hseed⟩ := hg totp htotp
  refine ⟨fun i v hopens => ?_, fun i v hopens => ?_, fun i v hopens => ?_⟩
  · unfold proxyPassword
    rw [hproxies]
    exact h.kept.proxies i v hopens
  · obtain ⟨x, hx, hold⟩ := Option.bind_eq_some_iff.mp (h.kept.passwords i v hopens)
    obtain ⟨hxin, rfl⟩ := lookup_some hx
    unfold loginPassword
    rw [lookup_upserted (Db.credentialSavedOver c _ _) _ (fun _ => rfl) hafter hx,
      Option.bind_some]
    split
    · rename_i hid
      have hown := (shown_id hchosen hnew hxin hid).2
      refine opened_loginPassword hlib nonces.lengths.1 hv hold
        (h.passwords c hc v (hown ▸ hopens)) (fun w hw => ?_) fun hblank => ?_
      · simpa only [hw] using hpassword
      · simp only [hblank] at hpassword
        exact hpassword x hxin hown
    · exact hold
  · obtain ⟨x, hx, hold⟩ := Option.bind_eq_some_iff.mp (h.kept.totps i v hopens)
    obtain ⟨hxin, rfl⟩ := lookup_some hx
    unfold loginTotp
    rw [lookup_upserted (Db.credentialSavedOver c _ _) _ (fun _ => rfl) hafter hx,
      Option.bind_some]
    split
    · rename_i hid
      have hown := (shown_id hchosen hnew hxin hid).2
      refine opened_loginTotp hlib nonces.lengths.2 hv hold (h.totps c hc v (hown ▸ hopens)) htotp
        (fun link hlink => ?_) fun hnone => ?_
      · simpa only [hlink] using hseed
      · simp only [hnone] at hseed
        exact hseed x hxin hown
    · exact hold

/-- Every careful step keeps what a run keeps. -/
theorem inv_step (hlib : Inverts lib) :
    Preserved (step lib key) (Careful lib key) (Inv lib key before) := by
  intro s label after h hg hs
  cases label with
  | read given =>
    cases hs
    exact ⟨readIf_machine given true h.machine, h.kept, h.proxies, h.passwords, h.totps⟩
  | retry =>
    cases hs
    refine ⟨?_, h.kept, h.proxies, h.passwords, h.totps⟩
    have hmachine := h.machine
    cases hvault : s.vault with
    | haveKey k =>
      rw [hvault] at hmachine
      simpa [KeyState.retry, hvault] using hmachine
    | unread => exact .inl (by simp [KeyState.retry, KeyState.vault])
    | failed => exact .inl (by simp [KeyState.retry, KeyState.vault])
  | restart =>
    cases hs
    exact ⟨.inl rfl, h.kept, h.proxies, h.passwords, h.totps⟩
  | listProxies given =>
    cases hs
    exact h.listProxies (readIf_machine _ _ h.machine)
  | listLogins profile given =>
    cases hs
    exact h.listLogins (readIf_machine _ _ h.machine) profile
  | saveProxy p new nonces given =>
    simp only [step] at hs
    split at hs
    · rename_i hok
      cases hs
      exact ⟨readIf_machine _ _ h.machine, h.saveProxy hlib hok.1 hok.2 hg, h.proxies, h.passwords,
        h.totps⟩
    · cases hs
  | saveLogin c new nonces given =>
    simp only [step] at hs
    split at hs
    · rename_i hok
      split at hs
      · cases hs
        exact ⟨readIf_machine given (loginReads c) h.machine, h.kept, h.proxies, h.passwords,
          h.totps⟩
      · rename_i hup
        cases hs
        exact ⟨readIf_machine _ _ h.machine, h.saveLogin hlib hok.1 hok.2 hup hg, h.proxies,
          h.passwords, h.totps⟩
    · cases hs

/-- In every run whose saves are careful, every password of a proxy, password of a login and seed
that opened before opens to the same. -/
theorem secrets_kept (hlib : Inverts lib) {start : State ω} (hstart : Starts start)
    (hr : Reached (fun s => s = start) (step lib key) (Careful lib key) s) :
    Kept lib key start.db s.db := by
  refine (hr.invariant (Inv lib key start.db) (fun t ht => ?_) (inv_step hlib)).kept
  rw [ht]
  exact inv_start hstart

/-- What the samples draw. -/
def zeroNonces : Nonces where
  password := List.replicate nonceLen 0
  other := List.replicate nonceLen 0
  lengths := ⟨List.length_replicate, List.length_replicate⟩

/-- A password sealed under an empty key. -/
def sealedPassword : String := vaultSeal sampleLibrary ⟨some []⟩ (List.replicate nonceLen 0) "pw"

/-- A store with one proxy and one login, both with a sealed password. -/
def sealedStart : State Unit where
  db := ⟨[], [⟨"p1", "proxy", "http", "10.0.0.1", 8080, some "user", some sealedPassword, none,
    none, none, none, none, none, false⟩], [],
    [⟨"c1", "f1", "shop", "shop.example", some "user", some sealedPassword, none, ""⟩]⟩
  vault := .unread
  proxies := []
  logins := []
  uniqueProxies := List.nodup_singleton _
  uniqueLogins := List.nodup_singleton _

/-- The keychain gives the key, the agent starts again, and the proxy is saved as it was shown. -/
def plainSaved : List Label :=
  [.listProxies true, .restart, .saveProxy ⟨"p1", "proxy", "http", "10.0.0.1", 8080, some "user",
    some "pw", none, none, none, none, none, none⟩ "p2" zeroNonces true]

theorem secrets_kept_shown :
    ∃ after, run (step sampleLibrary []) sealedStart plainSaved = some after ∧
      Kept sampleLibrary [] sealedStart.db after.db := by
  obtain ⟨after, hrun⟩ : ∃ after, run (step sampleLibrary []) sealedStart plainSaved = some after :=
    ⟨_, rfl⟩
  have hallowed : Allowed (step sampleLibrary []) (Careful sampleLibrary []) sealedStart
      plainSaved := by
    refine ⟨trivial, fun s _ => ⟨trivial, fun t _ => ⟨?_, fun _ _ => trivial⟩⟩⟩
    exact .inr (by decide)
  have hstart : Reached (fun s => s = sealedStart) (step sampleLibrary [])
      (Careful sampleLibrary []) sealedStart := .start rfl
  exact ⟨after, hrun, secrets_kept sampleLibrary_inverts ⟨rfl, rfl, rfl⟩
    (hstart.run plainSaved hallowed hrun)⟩

/-- The keychain refuses once, the logins are listed, the operator tries again, and saves one as
it was shown. -/
def blankSaved : List Label :=
  [.listLogins "f1" false, .retry, .saveLogin ⟨"c1", "f1", "shop", "shop.example", some "user",
    some "", none, ""⟩ "c2" zeroNonces true]

theorem blank_overwrites :
    ¬∀ s : State Unit, Reached (fun s => s = sealedStart) (step sampleLibrary []) anyStep s →
      Kept sampleLibrary [] sealedStart.db s.db := by
  intro h
  obtain ⟨after, hrun⟩ : ∃ after, run (step sampleLibrary []) sealedStart blankSaved = some after :=
    ⟨_, rfl⟩
  have hbefore : loginPassword sampleLibrary [] sealedStart.db "c1" = some "pw" := by
    decide
  have hafter : (run (step sampleLibrary []) sealedStart blankSaved).bind
      (fun s => loginPassword sampleLibrary [] s.db "c1") = none := by
    decide
  have hkept := (h after (Reached.run_any blankSaved (.start rfl) hrun)).passwords "c1" "pw" hbefore
  rw [hrun, Option.bind_some, hkept] at hafter
  cases hafter

end Runs

end FuryBrowser.SecretsKept
