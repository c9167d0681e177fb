import FuryBrowser.BundleRoundTrip
import FuryBrowser.ProfileUpload

/-!
# What an upload carries

An upload names the profile, its tags, its persona, its seed, its time zone, its languages and its
overrides to the server, and leaves out its notes, its status and its start pages. The list of
proxies that it looks for the exit in has no hosts in it, so a new proxy is created each time.
The directory is packed as it is: its cookies stay encrypted under the key of this machine, where
a team launch hands the browser one that is derived from the organisation key.

Nothing takes the profile back when a step after its creation fails.
-/

namespace FuryBrowser.UploadCarries

open RowTable WrappedKeys PathTree AgentDisk BundleUnpack BundlePack BundleRoundTrip ProfileUpload
open ProfileShares (ProxyCredentials Codec sealProxyCredentials openProxyCredentials)

section Seeds

/-- A digit goes behind those above it. -/
theorem div_digit (n k : ℕ) : n / 256 ^ (k + 1) * 256 + n / 256 ^ k % 256 = n / 256 ^ k := by
  rw [pow_succ, ← Nat.div_div_eq_div_mul]
  exact Nat.div_add_mod' _ _

/-- The eight bytes of a seed are those of its digits. -/
theorem seedFromBytes_toBytes (seed : BitVec 64) :
    seedFromBytes (seedToBytes seed) = some seed := by
  have hfirst : seed.toNat / 256 ^ 7 % 256 = seed.toNat / 256 ^ 7 :=
    Nat.mod_eq_of_lt (by have := seed.isLt; omega)
  have hdigits : (seedToBytes seed).foldl (fun n b => n * 256 + b.toNat) 0 = seed.toNat := by
    simp only [seedToBytes, List.map_cons, List.map_nil, List.foldl_cons, List.foldl_nil,
      UInt8.toNat_ofNat', Nat.zero_mul, Nat.zero_add]
    have h := div_digit seed.toNat
    rw [hfirst, h 6, h 5, h 4, h 3, h 2, h 1, h 0]
    exact Nat.div_one _
  unfold seedFromBytes
  rw [if_pos (by rfl), hdigits, BitVec.ofNat_toNat, BitVec.setWidth_eq]

/-- What is written in digits has digits only. -/
theorem hexDigit_hex (bytes : Bytes) :
    (utf8 (hex bytes)).all (fun b => (hexDigit b).isSome) = true := by
  have hdigit : ∀ n < 16, (String.utf8EncodeChar (Nat.digitChar n)).all
      (fun b => (hexDigit b).isSome) = true := by decide
  unfold hex
  rw [utf8_ofList]
  induction bytes with
  | nil => rfl
  | cons b rest ih =>
    have hb : b.toNat < 256 := b.toNat_lt
    simp only [List.flatMap_cons, List.all_append, List.cons_append, List.nil_append,
      hdigit (b.toNat / 16) (by omega), hdigit (b.toNat % 16) (by omega), Bool.true_and]
    exact ih

theorem seedFromHex_toHex (seed : BitVec 64) : seedFromHex (seedToHex seed) = some seed := by
  obtain ⟨hlen, hbytes⟩ := hex_spells (seedToBytes seed)
  unfold seedFromHex seedToHex
  rw [if_pos ⟨by rw [hlen]; rfl, hexDigit_hex _⟩, hbytes, Option.bind_some, seedFromBytes_toBytes]

end Seeds

/-- A browser's cookies: where it keeps them, and under which keys a stored one can be read. -/
structure Browser where
  /-- The cookie store, below the profile's directory. -/
  jar : Path
  /-- The encrypted values in it. -/
  values : Bytes → List Bytes
  /-- A key decrypts a value. -/
  opens : Key → Bytes → Bool
  /-- A value is encrypted under one key. -/
  opensOnce : ∀ {k k' v}, opens k v = true → opens k' v = true → k = k'
  /-- The store is not passed over. -/
  jar_synced : synced jar = true

variable {η β ν π ω : Type}

section Statements

variable (lib : PackLibrary) (K : KeyScheme Key η β ν π) (C : Codec String ν)
variable (mask : String → String) (b : Browser) (m : Machine ω) (o : Outcomes) (d : Draws η)
variable (s : Server β ω) (id : String)

/-- The key that a team launch hands to the browser. -/
def teamKey (current : Key) (id : String) : Key := osCryptKey lib (profileKey lib current id) id

/-- The directory of a local profile: its cookies are encrypted under the key of the machine. -/
structure Kept (machineKey : Key) : Prop where
  /-- The disk of the agent is a file system. -/
  disk : FileSystem m.disk
  /-- What is in the cookie store of the profile. -/
  cookies : ∀ content, fileAt m.disk (m.profileDir id ++ b.jar) = some content →
    ∀ v ∈ b.values content, b.opens machineKey v = true

/-- What the server reads back from a row. -/
def readBack (p : ServerProfile ω) : Option (Settings ω) :=
  (seedFromBytes p.fpSeed).map fun seed => {
    name := p.name
    notes := p.notes
    status := p.status
    tags := p.tags
    personaId := p.personaId
    fpSeed := seed
    startUrls := p.startUrls
    timezone := p.timezone
    languages := if p.languages = [] then none else some p.languages
    overrides := p.overrides }

/-- A proxy has the kind, the address and the credentials of a local one, for whoever holds the
key in force. -/
def SameProxy (current : Key) (x : LocalProxy) (y : ServerProxy β) : Prop :=
  y.kind = x.kind ∧ y.host = x.host ∧ y.port = x.port ∧
    openProxyCredentials K C current y.credentialsEnc y.wrappedDek =
      some ⟨x.username, x.password⟩

/-- A bundle unpacks into an empty directory of any machine to the files of the profile that are
synchronised, with cookies that the key of a team launch decrypts. -/
def UnpacksTo (current : Key) (remoteId : String) (bundle : Sealed) : Prop :=
  ∀ (vault : Option Vault) (there : Disk) (dest : Path), FileSystem there →
    EmptyDirectory there dest →
      ∃ n after, unpack lib.toSealLibrary bundle.bytes bundle.wrappedKey
          (.shared (profileKey lib current remoteId) vault) dest there = .ok n after ∧
        (∀ q, fileAt after (dest ++ q) =
          if synced q then fileAt m.disk (m.profileDir id ++ q) else none) ∧
        ∀ content, fileAt after (dest ++ b.jar) = some content →
          ∀ v ∈ b.values content, b.opens (teamKey lib current remoteId) v = true

/-- The profile on the server is the local one. -/
def Carried (current : Key) (remoteId : String) : Prop :=
  ∃ row x, lookup ProfileRow.id m.store.profiles id = some row ∧ m.store.proxyOf row = some x ∧
    ∃ p, lookup ServerProfile.id s.profiles remoteId = some p ∧ readBack p = some row.settings ∧
      (∃ y, lookup ServerProxy.id s.proxies p.proxyId = some y ∧ SameProxy K C current x y) ∧
      ∃ bundle, p.bundle = some bundle ∧ UnpacksTo lib b m id current remoteId bundle

/-- There is a new profile without a bundle. -/
def HalfMade (before after : Server β ω) : Prop :=
  ∃ p ∈ after.profiles, (∀ q ∈ before.profiles, q.id ≠ p.id) ∧ p.bundle = none

/-- An upload that succeeds has carried the profile, and one that fails leaves nothing half made. -/
def Faithful (current : Key) : Prop :=
  match uploadProfile lib K C mask m o d id s with
  | .ok remoteId after => Carried lib K C b m after id current remoteId
  | .error _ after => ¬ HalfMade s after

/-- The agent hands out a profile with a proxy, to a shell that may send it. -/
structure Asks (orgKey : Key) (row : ProfileRow ω) (x : LocalProxy) : Prop where
  hasServer : m.hasServer = true
  /-- The shell holds an organisation key. -/
  holdsKey : m.orgKey = some orgKey
  listed : o.profilesList = true
  found : lookup ProfileRow.id m.store.profiles id = some row
  leaves : m.store.proxyOf row = some x
  /-- The agent answers again. -/
  opened : o.proxiesList = true

/-- The server gets to create the profile. -/
structure Creates (orgKey : Key) (row : ProfileRow ω) (x : LocalProxy) : Prop
    extends Asks m o id orgKey row x where
  /-- The server lists its proxies. -/
  proxies : o.listProxies = .answered
  created : o.createProxy = .answered
  /-- As the proxy is one that it takes. -/
  valid : (proxyRequest K C d orgKey x).valid = true
  newProxy : ∀ y ∈ s.proxies, y.id ≠ d.newProxy
  /-- It is told to create the profile. -/
  arrives : o.createProfile.arrives = true
  named : trim row.settings.name ≠ ""
  newProfile : ∀ p ∈ s.profiles, p.id ≠ d.newProfile

/-- What is created is given its bundle. -/
structure Fills (orgKey : Key) : Prop where
  /-- The shell is told that the profile is there. -/
  answered : o.createProfile = .answered
  locked : o.lock = .answered
  /-- And still is signed in. -/
  signedIn : o.signedIn = true
  /-- The profile is not open. -/
  closed : o.closed = true
  packs : ∃ bundle, pack lib m.disk (m.profileDir id)
    (.shared (profileKey lib orgKey d.newProfile) (some m.vault)) d.bundle = .ok bundle
  arrives : o.pushBundle.arrives = true

/-- Everything that is not sent is empty, what is trimmed has no white space around it, the key is
the one in force, and there are no cookies. -/
structure Portable (current machineKey orgKey : Key) (row : ProfileRow ω) (x : LocalProxy) :
    Prop where
  /-- The name is as it is stored. -/
  name : trim row.settings.name = row.settings.name
  notes : row.settings.notes = ""
  status : row.settings.status = ""
  startUrls : row.settings.startUrls = []
  /-- A time zone that is set is as it is stored. -/
  timezone : ∀ t ∈ row.settings.timezone, trim t = t ∧ t ≠ ""
  /-- Languages that are set are some. -/
  languages : row.settings.languages ≠ some []
  /-- The host is as it is stored. -/
  host : trim x.host = x.host
  /-- A login that is set is not empty. -/
  username : x.username ≠ some ""
  password : x.password ≠ some ""
  /-- The shell holds the key in force. -/
  key : orgKey = current
  /-- There are no cookies, unless the machine's key is that of the team. -/
  cookies : ∀ content, fileAt m.disk (m.profileDir id ++ b.jar) = some content →
    b.values content = [] ∨ machineKey = teamKey lib current d.newProfile

end Statements

section Calls

variable {α γ : Type} {s s' : Server β ω} {a : α} {e : UploadError} {d : Delivery}
variable {handler : Server β ω → Option (α × Server β ω)}

theorem bind_of_ok {x : ServerOp β ω α} {f : α → ServerOp β ω γ} (h : x s = .ok a s') :
    (x >>= f) s = f a s' := by
  change EStateM.bind x f s = _
  unfold EStateM.bind
  rw [h]

theorem bind_of_error {x : ServerOp β ω α} {f : α → ServerOp β ω γ} (h : x s = .error e s') :
    (x >>= f) s = .error e s' := by
  change EStateM.bind x f s = _
  unfold EStateM.bind
  rw [h]

theorem answer_true (a : α) (s : Server β ω) : answer true a s = .ok a s := rfl

/-- A call that is answered has been carried out. -/
theorem call_answered (h : handler s = some (a, s')) : call .answered handler s = .ok a s' := by
  have harrives : Delivery.answered.arrives = true := rfl
  unfold call
  rw [if_pos harrives, h]
  rfl

variable (handler) in
/-- A call that can be carried out is, and answered; or it is, and the answer is lost; or it does
not arrive. -/
theorem call_some (d : Delivery) (h : handler s = some (a, s')) :
    (d = .answered ∧ call d handler s = .ok a s') ∨
      (d = .unanswered ∧ call d handler s = .error .call s') ∨
      (d.arrives = false ∧ call d handler s = .error .call s) := by
  unfold call
  rw [h]
  cases d with
  | answered => exact .inl ⟨rfl, rfl⟩
  | unanswered => exact .inr (.inl ⟨rfl, rfl⟩)
  | lost | refused => exact .inr (.inr ⟨rfl, rfl⟩)

/-- One that cannot be changes nothing. -/
theorem call_none (d : Delivery) (h : handler s = none) : call d handler s = .error .call s := by
  unfold call
  rw [h]
  exact ite_self _

/-- A call that changes nothing, whatever becomes of it. -/
theorem call_quiet (d : Delivery) (f : Server β ω → α) (s : Server β ω) :
    (d = .answered ∧ call d (fun s => some (f s, s)) s = .ok (f s) s) ∨
      (d ≠ .answered ∧ call d (fun s => some (f s, s)) s = .error .call s) := by
  rcases call_some (fun s => some (f s, s)) d rfl with hanswered | ⟨hd, hcall⟩ | ⟨hd, hcall⟩
  · exact .inl hanswered
  · exact .inr ⟨fun h => (by rw [h] at hd; cases hd), hcall⟩
  · exact .inr ⟨fun h => (by rw [h] at hd; cases hd), hcall⟩

end Calls

section Exit

variable {K : KeyScheme Key η β ν π} {C : Codec String ν}
variable {mask : String → String} {m : Machine ω} {o : Outcomes} {d : Draws η}
variable {s : Server β ω} {orgKey : Key} {x : LocalProxy}

/-- The list that the server answers with has no hosts in it. -/
theorem matching_listProxies (reveal : Bool) :
    matching (s.listProxies mask reveal) x = none := by
  unfold matching Server.listProxies
  have hnone : (s.proxies.map (ServerProxy.summary mask reveal)).find? (fun y =>
      field "host" y = some (.str x.host) && field "port" y = some (.num x.port)) = none := by
    rw [List.find?_eq_none]
    intro y hy
    obtain ⟨z, _, rfl⟩ := List.mem_map.mp hy
    have hfield : field "host" (ServerProxy.summary mask reveal z) = none := rfl
    simp [hfield]
  rw [hnone]
  rfl

/-- The proxy of the server that is created. -/
def createdProxy (K : KeyScheme Key η β ν π) (C : Codec String ν) (d : Draws η) (orgKey : Key)
    (x : LocalProxy) : ServerProxy β :=
  let req := proxyRequest K C d orgKey x
  ⟨d.newProxy, trim req.name, req.kind, trim req.host, req.port, req.credentialsEnc,
    req.wrappedDek⟩

/-- The server with it. -/
def withProxy (K : KeyScheme Key η β ν π) (C : Codec String ν) (d : Draws η) (orgKey : Key)
    (x : LocalProxy) (s : Server β ω) : Server β ω :=
  { s with proxies := createdProxy K C d orgKey x :: s.proxies }

variable (K C mask m o d s orgKey x) in
/-- Finding the exit is to create it, or to fail before there is a profile. -/
theorem exitProxy_cases :
    (o.listProxies = .answered ∧ o.createProxy = .answered ∧
      (proxyRequest K C d orgKey x).valid = true ∧ (∀ y ∈ s.proxies, y.id ≠ d.newProxy) ∧
        exitProxy K C mask m o d orgKey x s = .ok (some d.newProxy) (withProxy K C d orgKey x s)) ∨
    (¬ (o.listProxies = .answered ∧ o.createProxy = .answered ∧
      (proxyRequest K C d orgKey x).valid = true ∧ ∀ y ∈ s.proxies, y.id ≠ d.newProxy) ∧
        ∃ e after, exitProxy K C mask m o d orgKey x s = .error e after ∧
          after.profiles = s.profiles) := by
  unfold exitProxy
  rcases call_quiet o.listProxies (fun s => s.listProxies mask m.reveal) s with
    ⟨hlist, hcall⟩ | ⟨hlist, hcall⟩
  · rw [bind_of_ok hcall]
    simp only [matching_listProxies]
    by_cases hnew : (proxyRequest K C d orgKey x).valid = true ∧
        ∀ y ∈ s.proxies, y.id ≠ d.newProxy
    · have hmade : s.createProxy d.newProxy (proxyRequest K C d orgKey x) =
          some (d.newProxy, withProxy K C d orgKey x s) := by
        unfold Server.createProxy
        rw [if_pos (by simpa using hnew)]
        rfl
      rcases call_some (fun s => s.createProxy d.newProxy (proxyRequest K C d orgKey x))
          o.createProxy hmade with
        ⟨hcreate, hcall⟩ | ⟨hcreate, hcall⟩ | ⟨hcreate, hcall⟩
      · refine .inl ⟨hlist, hcreate, hnew.1, hnew.2, ?_⟩
        rw [bind_of_ok hcall]
        rfl
      · refine .inr ⟨fun h => ?_, _, _, bind_of_error hcall, rfl⟩
        rw [h.2.1] at hcreate
        cases hcreate
      · refine .inr ⟨fun h => ?_, _, _, bind_of_error hcall, rfl⟩
        rw [h.2.1] at hcreate
        cases hcreate
    · have hnone : s.createProxy d.newProxy (proxyRequest K C d orgKey x) = none := by
        unfold Server.createProxy
        rw [if_neg (by simpa using hnew)]
      exact .inr ⟨fun h => hnew h.2.2, _, _, bind_of_error (call_none _ hnone), rfl⟩
  · exact .inr ⟨fun h => hlist h.1, _, _, bind_of_error hcall, rfl⟩

end Exit

section Sending

variable {lib : PackLibrary} {m : Machine ω} {o : Outcomes} {d : Draws η}
variable {s s₁ : Server β ω} {orgKey : Key} {me : LocalProfile ω} {proxyId : String}
variable {bundle : Sealed}

/-- The row of a profile that was uploaded. -/
def uploadedRow (new : String) (me : LocalProfile ω) (proxyId : String) : ServerProfile ω where
  id := new
  name := trim me.settings.name
  notes := ""
  tags := me.settings.tags
  personaId := me.settings.personaId
  fpSeed := seedToBytes me.settings.fpSeed
  timezone := (some (trim (me.settings.timezone.getD ""))).filter fun t => t ≠ ""
  languages := me.settings.languages.getD []
  proxyId := proxyId
  startUrls := []
  status := ""
  overrides := me.settings.overrides
  bundle := none

/-- The server with a new profile. -/
def withProfile (p : ServerProfile ω) (s : Server β ω) : Server β ω :=
  { s with profiles := p :: s.profiles }

/-- The server can create the profile. -/
def Accepts (s : Server β ω) (new : String) (me : LocalProfile ω) (proxyId : String) : Prop :=
  trim me.settings.name ≠ "" ∧ (∃ y ∈ s.proxies, y.id = proxyId) ∧ ∀ p ∈ s.profiles, p.id ≠ new

/-- The server reads the defaults for what is not sent. -/
theorem parse_uploadBody : (uploadBody me (some proxyId)).parse =
    some ⟨me.settings.name, me.settings.tags, me.settings.personaId, seedToHex me.settings.fpSeed,
      me.settings.timezone.getD "", me.settings.languages.getD [], proxyId, [], "", "",
      me.settings.overrides⟩ := rfl

variable (me proxyId) in
/-- What an upload names is stored, if it can be. -/
theorem createProfile_uploadBody (new : String) (s : Server β ω) :
    (Accepts s new me proxyId ∧ (uploadBody me (some proxyId)).parse.bind (s.createProfile new) =
        some (new, withProfile (uploadedRow new me proxyId) s)) ∨
      (¬ Accepts s new me proxyId ∧
        (uploadBody me (some proxyId)).parse.bind (s.createProfile new) = none) := by
  have hempty : trim "" = "" := by decide
  rw [parse_uploadBody, Option.bind_some]
  unfold Server.createProfile
  by_cases h : Accepts s new me proxyId
  · refine .inl ⟨h, ?_⟩
    rw [if_pos (by simpa [Accepts, and_assoc] using h), seedFromHex_toHex, Option.map_some, hempty]
    rfl
  · refine .inr ⟨h, ?_⟩
    rw [if_neg (by simpa [Accepts, and_assoc] using h)]

/-- The bundle of a profile that was just created is the first one. -/
theorem pushBundle_new {p : ServerProfile ω} (hnone : p.bundle = none)
    (hnew : ∀ q ∈ s.profiles, q.id ≠ p.id) (bundle : Sealed) :
    (withProfile p s).pushBundle p.id bundle =
      some ((), withProfile { p with bundle := some bundle } s) := by
  have hrest : updateWhere (fun q => q.id = p.id)
      (fun q : ServerProfile ω => { q with bundle := some bundle }) s.profiles = s.profiles :=
    updateWhere_of_not fun q hq => by simpa using hnew q hq
  unfold Server.pushBundle withProfile
  rw [if_pos (by simp [hnone])]
  unfold updateWhere at hrest ⊢
  rw [List.map_cons, hrest]
  simp

/-- A profile that is closed and can be packed is pushed. -/
theorem uploadTo_eq {id remoteId : String} {key : Key} (hclosed : o.closed = true)
    (hpack : pack lib m.disk (m.profileDir id) (.shared key (some m.vault)) d.bundle = .ok bundle) :
    uploadTo lib m o d id remoteId key =
      call o.pushBundle fun s : Server β ω => s.pushBundle remoteId bundle := by
  unfold uploadTo
  rw [hclosed, hpack]
  rfl

/-- The agent pushes what it packs, or fails without a trace. -/
theorem uploadTo_cases {p : ServerProfile ω} (id : String) (key : Key) (hnone : p.bundle = none)
    (hnew : ∀ q ∈ s.profiles, q.id ≠ p.id) :
    (∃ bundle, o.closed = true ∧
      pack lib m.disk (m.profileDir id) (.shared key (some m.vault)) d.bundle = .ok bundle ∧
        ((o.pushBundle = .answered ∧ uploadTo lib m o d id p.id key (withProfile p s) =
            .ok () (withProfile { p with bundle := some bundle } s)) ∨
          (o.pushBundle = .unanswered ∧ uploadTo lib m o d id p.id key (withProfile p s) =
            .error .call (withProfile { p with bundle := some bundle } s)))) ∨
    (¬ (o.closed = true ∧
        (∃ bundle, pack lib m.disk (m.profileDir id) (.shared key (some m.vault)) d.bundle =
          .ok bundle) ∧ o.pushBundle.arrives = true) ∧
      ∃ e, uploadTo lib m o d id p.id key (withProfile p s) = .error e (withProfile p s)) := by
  cases hclosed : o.closed with
  | false =>
    refine .inr ⟨fun h => absurd h.1 Bool.false_ne_true, .open, ?_⟩
    unfold uploadTo
    rw [hclosed]
    rfl
  | true =>
    cases hpack : pack lib m.disk (m.profileDir id) (.shared key (some m.vault)) d.bundle with
    | error e =>
      refine .inr ⟨fun ⟨_, ⟨_, h⟩, _⟩ => ?_, .pack e, ?_⟩
      · cases h
      · unfold uploadTo
        rw [hclosed, hpack]
        rfl
    | ok bundle =>
      have hpush := pushBundle_new hnone hnew bundle
      rw [uploadTo_eq hclosed hpack]
      rcases call_some (fun s => s.pushBundle p.id bundle) o.pushBundle hpush with
        hdone | hlost | ⟨hnot, hfails⟩
      · exact .inl ⟨bundle, rfl, rfl, .inl hdone⟩
      · exact .inl ⟨bundle, rfl, rfl, .inr hlost⟩
      · refine .inr ⟨fun h => ?_, .call, hfails⟩
        rw [h.2.2] at hnot
        cases hnot

theorem result_ok {α : Type} {x : ServerOp β ω α} {a : α} (h : x s = .ok a s₁) :
    result x s = .ok (.ok a) s₁ := by
  unfold result
  rw [h]

theorem result_error {α : Type} {x : ServerOp β ω α} {e : UploadError} (h : x s = .error e s₁) :
    result x s = .ok (.error e) s₁ := by
  unfold result
  rw [h]

/-- What a call comes to that changes nothing, the state is as it was. -/
theorem result_quiet (l : Delivery) (s : Server β ω) :
    ∃ r, result (call l fun s : Server β ω => some ((), s)) s = .ok r s := by
  rcases call_quiet l (fun _ => ()) s with ⟨_, h⟩ | ⟨_, h⟩
  · exact ⟨_, result_ok h⟩
  · exact ⟨_, result_error h⟩

/-- With the lock, and signed in, what has become of the upload is what becomes of it all. -/
theorem fillProfile_eq {id remoteId : String} (hlock : o.lock = .answered)
    (hsigned : o.signedIn = true) {r : Except UploadError Unit}
    (h : result (do
      uploadTo lib m o d id remoteId (profileKey lib orgKey remoteId)
      answer o.agentAnswers ()) s = .ok r s₁) :
    fillProfile lib m o d orgKey id remoteId s =
      match r with
      | .ok _ => .ok () s₁
      | .error e => .error e s₁ := by
  have hcall : call .answered (fun s : Server β ω => some ((), s)) s = .ok () s :=
    call_answered rfl
  obtain ⟨_, hunlock⟩ := result_quiet o.unlock s₁
  unfold fillProfile
  rw [hlock, bind_of_ok hcall, hsigned]
  simp only [Bool.not_true, Bool.false_eq_true, if_false]
  rw [bind_of_ok h, bind_of_ok hunlock]
  cases r <;> rfl

/-- The profile that was created is given its bundle, or is left without. -/
theorem fillProfile_cases {p : ServerProfile ω} (id : String) (hid : p.id = d.newProfile)
    (hnone : p.bundle = none) (hnew : ∀ q ∈ s.profiles, q.id ≠ p.id)
    (hcreated : o.createProfile = .answered) :
    (Fills lib m o d id orgKey ∧ ∃ bundle,
      pack lib m.disk (m.profileDir id) (.shared (profileKey lib orgKey p.id) (some m.vault))
        d.bundle = .ok bundle ∧
      ((o.pushBundle = .answered ∧ o.agentAnswers = true ∧
          fillProfile lib m o d orgKey id p.id (withProfile p s) =
            .ok () (withProfile { p with bundle := some bundle } s)) ∨
        (¬ (o.pushBundle = .answered ∧ o.agentAnswers = true) ∧
          ∃ e, fillProfile lib m o d orgKey id p.id (withProfile p s) =
            .error e (withProfile { p with bundle := some bundle } s)))) ∨
    (¬ Fills lib m o d id orgKey ∧
      ∃ e, fillProfile lib m o d orgKey id p.id (withProfile p s) =
        .error e (withProfile p s)) := by
  by_cases hlock : o.lock = .answered
  swap
  · have hfails : call o.lock (fun s : Server β ω => some ((), s)) (withProfile p s) =
        .error .call (withProfile p s) :=
      ((call_quiet o.lock (fun _ => ()) (withProfile p s)).resolve_left fun h => hlock h.1).2
    exact .inr ⟨fun h => hlock h.locked, _, bind_of_error hfails⟩
  cases hsigned : o.signedIn with
  | false =>
    have hcall : call .answered (fun s : Server β ω => some ((), s)) (withProfile p s) =
        .ok () (withProfile p s) := call_answered rfl
    refine .inr ⟨fun h => ?_, .unauthenticated, ?_⟩
    · rw [h.signedIn] at hsigned
      cases hsigned
    · unfold fillProfile
      rw [hlock, bind_of_ok hcall, hsigned]
      rfl
  | true =>
    rcases uploadTo_cases id (profileKey lib orgKey p.id) hnone hnew with
      ⟨bundle, hclosed, hpack, hpush⟩ | ⟨hnot, e, hup⟩
    · have harrives : o.pushBundle.arrives = true := by
        rcases hpush with ⟨h, _⟩ | ⟨h, _⟩ <;> rw [h] <;> rfl
      refine .inl ⟨⟨hcreated, hlock, hsigned, hclosed, ⟨bundle, hid ▸ hpack⟩, harrives⟩, bundle,
        hpack, ?_⟩
      rcases hpush with ⟨hanswered, hup⟩ | ⟨hunanswered, hup⟩
      · cases hagent : o.agentAnswers with
        | true =>
          refine .inl ⟨hanswered, rfl, fillProfile_eq hlock hsigned (r := .ok ()) ?_⟩
          rw [hagent]
          exact result_ok (bind_of_ok hup)
        | false =>
          refine .inr ⟨fun h => absurd h.2 Bool.false_ne_true, .call,
            fillProfile_eq hlock hsigned (r := .error .call) ?_⟩
          rw [hagent]
          exact result_error (bind_of_ok hup)
      · refine .inr ⟨fun h => ?_, .call, fillProfile_eq hlock hsigned (r := .error .call) ?_⟩
        · rw [h.1] at hunanswered
          cases hunanswered
        · exact result_error (bind_of_error hup)
    · refine .inr ⟨fun h => hnot ⟨h.closed, ?_, h.arrives⟩, e,
        fillProfile_eq hlock hsigned (r := .error e) (result_error (bind_of_error hup))⟩
      rw [hid]
      exact h.packs

variable (lib m o d orgKey me) in
/-- The profile is created, and then given its bundle or left without, or it is not created. -/
theorem sendProfile_cases (hproxy : ∃ y ∈ s.proxies, y.id = proxyId) :
    (o.createProfile.arrives = true ∧ trim me.settings.name ≠ "" ∧
      (∀ p ∈ s.profiles, p.id ≠ d.newProfile) ∧
      ((Fills lib m o d me.id orgKey ∧ ∃ bundle,
          pack lib m.disk (m.profileDir me.id)
            (.shared (profileKey lib orgKey d.newProfile) (some m.vault)) d.bundle = .ok bundle ∧
          ((o.pushBundle = .answered ∧ o.agentAnswers = true ∧
              sendProfile lib m o d orgKey me (some proxyId) s = .ok d.newProfile (withProfile
                { uploadedRow d.newProfile me proxyId with bundle := some bundle } s)) ∨
            (¬ (o.pushBundle = .answered ∧ o.agentAnswers = true) ∧
              ∃ e, sendProfile lib m o d orgKey me (some proxyId) s = .error e (withProfile
                { uploadedRow d.newProfile me proxyId with bundle := some bundle } s)))) ∨
        (¬ Fills lib m o d me.id orgKey ∧
          ∃ e, sendProfile lib m o d orgKey me (some proxyId) s =
            .error e (withProfile (uploadedRow d.newProfile me proxyId) s)))) ∨
    (¬ (o.createProfile.arrives = true ∧ trim me.settings.name ≠ "" ∧
        ∀ p ∈ s.profiles, p.id ≠ d.newProfile) ∧
      ∃ e, sendProfile lib m o d orgKey me (some proxyId) s = .error e s) := by
  rcases createProfile_uploadBody me proxyId d.newProfile s with
    ⟨⟨hname, _, hnew⟩, hmade⟩ | ⟨hnot, hnone⟩
  · rcases call_some (fun s => (uploadBody me (some proxyId)).parse.bind
        (s.createProfile d.newProfile)) o.createProfile hmade with
      ⟨hcreate, hcall⟩ | ⟨hcreate, hcall⟩ | ⟨hlost, hcall⟩
    · refine .inl ⟨by rw [hcreate]; rfl, hname, hnew, ?_⟩
      have hsend : sendProfile lib m o d orgKey me (some proxyId) s =
          (do
            fillProfile lib m o d orgKey me.id d.newProfile
            pure d.newProfile) (withProfile (uploadedRow d.newProfile me proxyId) s) :=
        bind_of_ok hcall
      rw [hsend]
      rcases fillProfile_cases (p := uploadedRow d.newProfile me proxyId) me.id rfl rfl hnew
          hcreate with ⟨hfills, bundle, hpack, hdone⟩ | ⟨hfills, e, hfill⟩
      · refine .inl ⟨hfills, bundle, hpack, ?_⟩
        rcases hdone with ⟨hpush, hagent, hfill⟩ | ⟨hnot, e, hfill⟩
        · exact .inl ⟨hpush, hagent, bind_of_ok hfill⟩
        · exact .inr ⟨hnot, e, bind_of_error hfill⟩
      · exact .inr ⟨hfills, e, bind_of_error hfill⟩
    · refine .inl ⟨by rw [hcreate]; rfl, hname, hnew, .inr ⟨fun h => ?_, .call, ?_⟩⟩
      · rw [h.answered] at hcreate
        cases hcreate
      · exact bind_of_error hcall
    · refine .inr ⟨fun h => ?_, .call, bind_of_error hcall⟩
      rw [h.1] at hlost
      cases hlost
  · exact .inr ⟨fun h => hnot ⟨h.2.1, hproxy, h.2.2⟩, .call, bind_of_error (call_none _ hnone)⟩

end Sending

section Upload

variable {lib : PackLibrary} {K : KeyScheme Key η β ν π} {C : Codec String ν}
variable {mask : String → String} {m : Machine ω} {o : Outcomes} {d : Draws η}
variable {s : Server β ω} {id : String} {orgKey : Key} {row : ProfileRow ω} {x : LocalProxy}

/-- What the agent lists of a profile. -/
def listedProfile (st : Store ω) (row : ProfileRow ω) : LocalProfile ω :=
  ⟨row.id, row.settings, (st.proxyOf row).map fun x => { x with password := none }⟩

theorem lookup_profilesList (st : Store ω) :
    lookup LocalProfile.id st.profilesList id =
      (lookup ProfileRow.id st.profiles id).map (listedProfile st) := by
  unfold lookup Store.profilesList
  rw [List.find?_map]
  rfl

/-- The list of proxies has the one that the profile leaves through. -/
theorem lookup_proxiesList {st : Store ω} (h : st.proxyOf row = some x) :
    lookup LocalProxy.id st.proxiesList x.id = some x := by
  obtain ⟨_, _, hfound⟩ := Option.bind_eq_some_iff.mp h
  rw [← (lookup_some hfound).2] at hfound
  exact hfound

/-- What is asked of the agent is a profile, its proxy, and the proxy's password. -/
theorem uploadProfile_asks (h : Asks m o id orgKey row x) :
    uploadProfile lib K C mask m o d id s = (do
      let proxyId ← exitProxy K C mask m o d orgKey x
      sendProfile lib m o d orgKey (listedProfile m.store row) proxyId) s := by
  have hme : lookup LocalProfile.id m.store.profilesList id =
      some (listedProfile m.store row) := by
    rw [lookup_profilesList, h.found, Option.map_some]
  have hproxy : (listedProfile m.store row).proxy = some { x with password := none } := by
    unfold listedProfile
    rw [h.leaves, Option.map_some]
  have hfull := lookup_proxiesList h.leaves
  unfold uploadProfile
  rw [h.hasServer, h.holdsKey, h.listed, h.opened]
  simp only [Bool.not_true, Bool.false_eq_true, if_false]
  rw [bind_of_ok (answer_true _ s)]
  simp only [hme, hproxy]
  rw [bind_of_ok (answer_true _ s), hfull]
  rfl

variable (lib K C mask d s) in
/-- Without that it fails before anything is sent. -/
theorem uploadProfile_not_asks (h : ∀ orgKey row x, ¬ Asks m o id orgKey row x) :
    ∃ e, uploadProfile lib K C mask m o d id s = .error e s := by
  unfold uploadProfile
  cases hserver : m.hasServer with
  | false => exact ⟨.noServer, rfl⟩
  | true =>
    cases hkey : m.orgKey with
    | none => exact ⟨.noOrgKey, rfl⟩
    | some orgKey =>
      simp only [Bool.not_true, Bool.false_eq_true, if_false]
      cases hlisted : o.profilesList with
      | false => exact ⟨.call, rfl⟩
      | true =>
        rw [bind_of_ok (answer_true _ s), lookup_profilesList]
        cases hfound : lookup ProfileRow.id m.store.profiles id with
        | none => exact ⟨.notHere, rfl⟩
        | some row =>
          cases hleaves : m.store.proxyOf row with
          | none =>
            refine ⟨.needsProxy, ?_⟩
            simp only [Option.map_some, listedProfile, hleaves, Option.map_none]
            rfl
          | some x =>
            cases hopened : o.proxiesList with
            | true => exact absurd ⟨hserver, hkey, hlisted, hfound, hleaves, hopened⟩ (h _ _ _)
            | false =>
              refine ⟨.call, ?_⟩
              simp only [Option.map_some, listedProfile, hleaves]
              rfl

variable (lib mask) in
/-- Unless the server gets to create the profile, the upload fails, and no profile is new. -/
theorem uploadProfile_not_creates
    (h : ∀ orgKey row x, ¬ Creates K C m o d s id orgKey row x) :
    ∃ e after, uploadProfile lib K C mask m o d id s = .error e after ∧
      after.profiles = s.profiles := by
  by_cases hasks : ∃ orgKey row x, Asks m o id orgKey row x
  · obtain ⟨orgKey, row, x, hasks⟩ := hasks
    rw [uploadProfile_asks hasks]
    rcases exitProxy_cases K C mask m o d s orgKey x with
      ⟨hlist, hcreate, hvalid, hnew, hexit⟩ | ⟨_, e, after, hexit, hsame⟩
    · have hproxy : ∃ y ∈ (withProxy K C d orgKey x s).proxies, y.id = d.newProxy :=
        ⟨_, List.mem_cons_self, rfl⟩
      rw [bind_of_ok hexit]
      rcases sendProfile_cases lib m o d orgKey (listedProfile m.store row) hproxy with
        ⟨harrives, hname, hprofile, _⟩ | ⟨_, e, hsend⟩
      · have hcreates : Creates K C m o d s id orgKey row x :=
          ⟨hasks, hlist, hcreate, hvalid, hnew, harrives, hname, hprofile⟩
        exact absurd hcreates (h orgKey row x)
      · exact ⟨e, _, hsend, rfl⟩
    · exact ⟨e, after, bind_of_error hexit, hsame⟩
  · obtain ⟨e, hfails⟩ := uploadProfile_not_asks lib K C mask d s fun orgKey row x h =>
      hasks ⟨orgKey, row, x, h⟩
    exact ⟨e, s, hfails, rfl⟩

/-- What the server has of a profile, once it is created. -/
def createdRow (d : Draws η) (m : Machine ω) (row : ProfileRow ω) : ServerProfile ω :=
  uploadedRow d.newProfile (listedProfile m.store row) d.newProxy

variable (lib mask) in
/-- When it does, the profile gets its bundle or is left without, and the upload succeeds if it
gets it and is told so. -/
theorem uploadProfile_creates (h : Creates K C m o d s id orgKey row x) :
    (Fills lib m o d id orgKey ∧ ∃ bundle,
        pack lib m.disk (m.profileDir id)
          (.shared (profileKey lib orgKey d.newProfile) (some m.vault)) d.bundle = .ok bundle ∧
        ((o.pushBundle = .answered ∧ o.agentAnswers = true ∧
            uploadProfile lib K C mask m o d id s = .ok d.newProfile (withProfile
              { createdRow d m row with bundle := some bundle } (withProxy K C d orgKey x s))) ∨
          (¬ (o.pushBundle = .answered ∧ o.agentAnswers = true) ∧
            ∃ e, uploadProfile lib K C mask m o d id s = .error e (withProfile
              { createdRow d m row with bundle := some bundle } (withProxy K C d orgKey x s))))) ∨
      (¬ Fills lib m o d id orgKey ∧
        ∃ e, uploadProfile lib K C mask m o d id s =
          .error e (withProfile (createdRow d m row) (withProxy K C d orgKey x s))) := by
  have hid : row.id = id := (lookup_some h.found).2
  have hproxy : ∃ y ∈ (withProxy K C d orgKey x s).proxies, y.id = d.newProxy :=
    ⟨_, List.mem_cons_self, rfl⟩
  rw [uploadProfile_asks h.toAsks]
  rcases exitProxy_cases K C mask m o d s orgKey x with
    ⟨_, _, _, _, hexit⟩ | ⟨hnot, _⟩
  · rw [bind_of_ok hexit, ← hid]
    rcases sendProfile_cases lib m o d orgKey (listedProfile m.store row) hproxy with
      ⟨_, _, _, hcases⟩ | ⟨hnot, _⟩
    · exact hcases
    · exact absurd ⟨h.arrives, h.named, h.newProfile⟩ hnot
  · exact absurd ⟨h.proxies, h.created, h.valid, h.newProxy⟩ hnot

end Upload

section Carrying

variable {lib : PackLibrary} {K : KeyScheme Key η β ν π} {C : Codec String ν} {b : Browser}
variable {m : Machine ω} {d : Draws η} {s after : Server β ω} {id : String}
variable {current machineKey orgKey : Key} {row : ProfileRow ω} {x : LocalProxy} {bundle : Sealed}

/-- What is filtered for not being empty stays if it is not. -/
theorem filter_nonempty {v : Option String} : v.filter (fun t => t ≠ "") = v ↔ v ≠ some "" := by
  cases v with
  | none => simp
  | some t => by_cases ht : t = "" <;> simp [ht, Option.filter]

/-- The time zone stays if it is as it is stored. -/
theorem timezone_iff {v : Option String} :
    (some (trim (v.getD ""))).filter (fun t => t ≠ "") = v ↔ ∀ t ∈ v, trim t = t ∧ t ≠ "" := by
  have hempty : trim "" = "" := by decide
  cases v with
  | none => simp [hempty]
  | some t =>
    by_cases ht : trim t = ""
    · simp only [Option.getD_some, ht, Option.filter_some, Option.mem_some_iff, forall_eq']
      constructor
      · intro h
        simp at h
      · rintro ⟨rfl, hne⟩
        exact absurd rfl hne
    · simp only [Option.getD_some, Option.filter_some, Option.mem_some_iff, forall_eq']
      rw [if_pos (by simpa using ht), Option.some.injEq]
      exact ⟨fun h => ⟨h, fun heq => ht (h.trans heq)⟩, fun h => h.1⟩

/-- The languages stay unless they are set to none at all. -/
theorem languages_iff {v : Option (List String)} :
    (if v.getD [] = [] then none else some (v.getD [])) = v ↔ v ≠ some [] := by
  cases v with
  | none => simp
  | some l => by_cases hl : l = [] <;> simp [hl]

theorem readBack_createdRow : readBack (createdRow d m row) = some {
    name := trim row.settings.name
    notes := ""
    status := ""
    tags := row.settings.tags
    personaId := row.settings.personaId
    fpSeed := row.settings.fpSeed
    startUrls := []
    timezone := (some (trim (row.settings.timezone.getD ""))).filter fun t => t ≠ ""
    languages := if row.settings.languages.getD [] = [] then none
      else some (row.settings.languages.getD [])
    overrides := row.settings.overrides } := by
  unfold readBack createdRow uploadedRow listedProfile
  rw [seedFromBytes_toBytes, Option.map_some]

theorem readBack_bundle (p : ServerProfile ω) (sealed : Option Sealed) :
    readBack { p with bundle := sealed } = readBack p := rfl

/-- It is what the profile is set to, if there is nothing in what is not sent. -/
theorem readBack_iff : readBack (createdRow d m row) = some row.settings ↔
    trim row.settings.name = row.settings.name ∧ row.settings.notes = "" ∧
      row.settings.status = "" ∧ row.settings.startUrls = [] ∧
        (∀ t ∈ row.settings.timezone, trim t = t ∧ t ≠ "") ∧ row.settings.languages ≠ some [] := by
  rw [readBack_createdRow, Option.some.injEq, ← timezone_iff, ← languages_iff, Settings.ext_iff]
  simp only
  constructor
  · rintro ⟨hname, hnotes, hstatus, -, -, -, hurls, hzone, hlanguages, -⟩
    exact ⟨hname, hnotes.symm, hstatus.symm, hurls.symm, hzone, hlanguages⟩
  · rintro ⟨hname, hnotes, hstatus, hurls, hzone, hlanguages⟩
    exact ⟨hname, hnotes.symm, hstatus.symm, trivial, trivial, trivial, hurls.symm, hzone,
      hlanguages, trivial⟩

/-- What was sealed under a key opens under that one, to what was sealed. -/
theorem openProxyCredentials_sealed {k : Key} {n : η × η} {c c' : ProxyCredentials String}
    {dek : Key} : openProxyCredentials K C k (sealProxyCredentials K C orgKey dek n c).1
        (sealProxyCredentials K C orgKey dek n c).2 = some c' ↔ k = orgKey ∧ c' = c := by
  unfold openProxyCredentials sealProxyCredentials
  constructor
  · intro h
    obtain ⟨v, hv, h⟩ := Option.bind_eq_some_iff.mp h
    obtain ⟨rfl, rfl⟩ := KeyScheme.unwrap_wrap_iff.mp hv
    rw [K.toKey_ofKey, Option.bind_some, K.unwrap_wrap, Option.bind_some, C.fromSlice_toVec] at h
    exact ⟨rfl, (Option.some.inj h).symm⟩
  · rintro ⟨rfl, rfl⟩
    rw [K.unwrap_wrap, Option.bind_some, K.toKey_ofKey, Option.bind_some, K.unwrap_wrap,
      Option.bind_some, C.fromSlice_toVec]

/-- The proxy that is created is the local one, if that has a plain host, no empty login or
password, and is sealed with the key in force. -/
theorem sameProxy_iff : SameProxy K C current x (createdProxy K C d orgKey x) ↔
    trim x.host = x.host ∧ x.username ≠ some "" ∧ x.password ≠ some "" ∧ orgKey = current := by
  have hopen : openProxyCredentials K C current (createdProxy K C d orgKey x).credentialsEnc
      (createdProxy K C d orgKey x).wrappedDek = some ⟨x.username, x.password⟩ ↔
        current = orgKey ∧ (⟨x.username, x.password⟩ : ProxyCredentials String) = x.credentials :=
    openProxyCredentials_sealed
  have hcredentials : (⟨x.username, x.password⟩ : ProxyCredentials String) = x.credentials ↔
      x.username ≠ some "" ∧ x.password ≠ some "" := by
    rw [← filter_nonempty, ← filter_nonempty, LocalProxy.credentials, ProxyCredentials.mk.injEq]
    exact and_congr eq_comm eq_comm
  unfold SameProxy
  rw [hopen, hcredentials]
  constructor
  · rintro ⟨-, hhost, -, rfl, husername, hpassword⟩
    exact ⟨hhost, husername, hpassword, rfl⟩
  · rintro ⟨hhost, husername, hpassword, rfl⟩
    exact ⟨rfl, hhost, rfl, rfl, husername, hpassword⟩

/-- A browser reads what is encrypted under the key of the machine with that of the team if there
is nothing, or the keys are one. -/
theorem opens_iff {values : List Bytes} {k : Key}
    (hlocal : ∀ v ∈ values, b.opens machineKey v = true) :
    (∀ v ∈ values, b.opens k v = true) ↔ values = [] ∨ machineKey = k := by
  constructor
  · intro h
    cases values with
    | nil => exact .inl rfl
    | cons v rest =>
      exact .inr (b.opensOnce (hlocal v List.mem_cons_self) (h v List.mem_cons_self))
  · rintro (rfl | rfl)
    · exact fun v hv => absurd hv List.not_mem_nil
    · exact hlocal

/-- The bundle unpacks to the files, with cookies that a team launch decrypts if there are none. -/
theorem unpacksTo_iff (hlib : Inverts lib) (hseals : SealsKeys lib) (hkept : Kept b m id machineKey)
    {remoteId : String} (hpack : pack lib m.disk (m.profileDir id)
      (.shared (profileKey lib current remoteId) (some m.vault)) d.bundle = .ok bundle) :
    UnpacksTo lib b m id current remoteId bundle ↔
      ∀ content, fileAt m.disk (m.profileDir id ++ b.jar) = some content →
        b.values content = [] ∨ machineKey = teamKey lib current remoteId := by
  have hunpack (vault : Option Vault) {there : Disk} {dest : Path} (hthere : FileSystem there)
      (hempty : EmptyDirectory there dest) := by
    -- The vault that comes with a shared key does not come into packing.
    have hsame : pack lib m.disk (m.profileDir id)
        (.shared (profileKey lib current remoteId) vault) d.bundle = .ok bundle := hpack
    exact unpack_packedFiles hkept.disk hthere hempty
      (openBundle_of_pack hlib hseals hkept.disk hsame)
  constructor
  · intro h content hcontent
    obtain ⟨n, after, _, hfiles, hcookies⟩ :=
      h none emptyDisk ["b"] emptyDisk_fileSystem emptyDisk_empty
    have hjar : fileAt after (["b"] ++ b.jar) = some content := by
      rw [hfiles, if_pos b.jar_synced, hcontent]
    exact (opens_iff (hkept.cookies content hcontent)).mp (hcookies content hjar)
  · intro h vault there dest hthere hempty
    obtain ⟨n, after, hdone, hfiles, _⟩ := hunpack vault hthere hempty
    refine ⟨n, after, hdone, hfiles, fun content hjar => ?_⟩
    rw [hfiles, if_pos b.jar_synced] at hjar
    exact (opens_iff (hkept.cookies content hjar)).mpr (h content hjar)

/-- The profile on the server is the local one exactly if the local one is portable. -/
theorem carried_iff (hlib : Inverts lib) (hseals : SealsKeys lib) (hkept : Kept b m id machineKey)
    (hfound : lookup ProfileRow.id m.store.profiles id = some row)
    (hleaves : m.store.proxyOf row = some x)
    (hpack : pack lib m.disk (m.profileDir id)
      (.shared (profileKey lib orgKey d.newProfile) (some m.vault)) d.bundle = .ok bundle) :
    Carried lib K C b m (withProfile { createdRow d m row with bundle := some bundle }
        (withProxy K C d orgKey x s)) id current d.newProfile ↔
      Portable lib b m d id current machineKey orgKey row x := by
  have hrow : lookup ServerProfile.id (withProfile
      { createdRow d m row with bundle := some bundle } (withProxy K C d orgKey x s)).profiles
        d.newProfile = some { createdRow d m row with bundle := some bundle } :=
    List.find?_cons_of_pos (by simp [createdRow, uploadedRow])
  have hproxy : lookup ServerProxy.id (withProfile
      { createdRow d m row with bundle := some bundle } (withProxy K C d orgKey x s)).proxies
        d.newProxy = some (createdProxy K C d orgKey x) :=
    List.find?_cons_of_pos (by simp [createdProxy])
  constructor
  · rintro ⟨row', x', hfound', hleaves', p, hp, hsettings, ⟨y, hy, hsame⟩, bundle', hbundle,
      hunpacks⟩
    obtain rfl := Option.some.inj (hfound.symm.trans hfound')
    obtain rfl := Option.some.inj (hleaves.symm.trans hleaves')
    obtain rfl := Option.some.inj (hrow.symm.trans hp)
    obtain rfl := Option.some.inj (hproxy.symm.trans hy)
    obtain rfl := Option.some.inj hbundle
    rw [readBack_bundle] at hsettings
    obtain ⟨hname, hnotes, hstatus, hurls, hzone, hlanguages⟩ := readBack_iff.mp hsettings
    obtain ⟨hhost, husername, hpassword, rfl⟩ := sameProxy_iff.mp hsame
    exact ⟨hname, hnotes, hstatus, hurls, hzone, hlanguages, hhost, husername, hpassword, rfl,
      (unpacksTo_iff hlib hseals hkept hpack).mp hunpacks⟩
  · intro h
    obtain rfl := h.key
    refine ⟨row, x, hfound, hleaves, _, hrow, ?_, ⟨_, hproxy, ?_⟩, bundle, rfl, ?_⟩
    · rw [readBack_bundle]
      exact readBack_iff.mpr ⟨h.name, h.notes, h.status, h.startUrls, h.timezone, h.languages⟩
    · exact sameProxy_iff.mpr ⟨h.host, h.username, h.password, rfl⟩
    · exact (unpacksTo_iff hlib hseals hkept hpack).mpr h.cookies

/-- Where no profile is new, none is half made. -/
theorem not_halfMade (h : after.profiles = s.profiles) : ¬ HalfMade s after := by
  rintro ⟨p, hp, hnew, -⟩
  rw [h] at hp
  exact hnew p hp rfl

/-- Where one is, it is half made if it has no bundle. -/
theorem halfMade_iff {p : ServerProfile ω} (hnew : ∀ q ∈ s.profiles, q.id ≠ p.id)
    (hsame : after.profiles = s.profiles) :
    HalfMade s (withProfile p after) ↔ p.bundle = none := by
  constructor
  · rintro ⟨q, hq, hqnew, hnone⟩
    rcases List.mem_cons.mp hq with rfl | hold
    · exact hnone
    · rw [hsame] at hold
      exact absurd rfl (hqnew q hold)
  · exact fun hnone => ⟨p, List.mem_cons_self, hnew, hnone⟩

variable {mask : String → String} {o : Outcomes}

/-- An upload that the server gets to create the profile for is faithful if the profile is given
its bundle and, when the shell is told so, is portable. -/
theorem faithful_creates (hlib : Inverts lib) (hseals : SealsKeys lib)
    (hkept : Kept b m id machineKey) (h : Creates K C m o d s id orgKey row x) :
    Faithful lib K C mask b m o d s id current ↔
      Fills lib m o d id orgKey ∧ (o.pushBundle = .answered → o.agentAnswers = true →
        Portable lib b m d id current machineKey orgKey row x) := by
  unfold Faithful
  rcases uploadProfile_creates lib mask h with ⟨hfills, bundle, hpack, hdone⟩ | ⟨hfills, e, hfails⟩
  · rcases hdone with ⟨hpush, hagent, hdone⟩ | ⟨hnot, e, hfails⟩
    · rw [hdone]
      refine (carried_iff hlib hseals hkept h.found h.leaves hpack).trans ?_
      exact ⟨fun hportable => ⟨hfills, fun _ _ => hportable⟩, fun hboth => hboth.2 hpush hagent⟩
    · rw [hfails]
      have hmade : ¬ HalfMade s (withProfile { createdRow d m row with bundle := some bundle }
          (withProxy K C d orgKey x s)) := fun hhalf =>
        Option.some_ne_none bundle ((halfMade_iff (s := s) h.newProfile rfl).mp hhalf)
      exact ⟨fun _ => ⟨hfills, fun hpush hagent => absurd ⟨hpush, hagent⟩ hnot⟩, fun _ => hmade⟩
  · rw [hfails]
    have hhalf : HalfMade s (withProfile (createdRow d m row) (withProxy K C d orgKey x s)) :=
      (halfMade_iff h.newProfile rfl).mpr rfl
    exact ⟨fun hnot => absurd hhalf hnot, fun hboth => absurd hboth.1 hfills⟩

/-- An upload carries the profile, or leaves nothing half made, exactly if every profile that is
created is given its bundle and, when that is told, has nothing that is not sent, nothing that is
trimmed, the key in force and no cookies. -/
theorem upload_carries_iff (hlib : Inverts lib) (hseals : SealsKeys lib)
    (hkept : Kept b m id machineKey) :
    Faithful lib K C mask b m o d s id current ↔
      ∀ orgKey row x, Creates K C m o d s id orgKey row x →
        Fills lib m o d id orgKey ∧ (o.pushBundle = .answered → o.agentAnswers = true →
          Portable lib b m d id current machineKey orgKey row x) := by
  constructor
  · exact fun h orgKey row x hcreates => (faithful_creates hlib hseals hkept hcreates).mp h
  · intro h
    by_cases hcreates : ∃ orgKey row x, Creates K C m o d s id orgKey row x
    · obtain ⟨orgKey, row, x, hcreates⟩ := hcreates
      exact (faithful_creates hlib hseals hkept hcreates).mpr (h orgKey row x hcreates)
    · obtain ⟨e, after, hfails, hsame⟩ := uploadProfile_not_creates lib mask
        fun orgKey row x h => hcreates ⟨orgKey, row, x, h⟩
      unfold Faithful
      rw [hfails]
      exact not_halfMade hsame

end Carrying

section Samples

/-- What a number and a key are told from. -/
theorem replicate_append_inj {n n' : ℕ} {k k' : Key}
    (h : List.replicate n 1 ++ 0 :: k = List.replicate n' 1 ++ 0 :: k') : k = k' ∧ n = n' := by
  induction n generalizing n' with
  | zero => cases n' <;> simp_all [List.replicate_succ]
  | succ n ih =>
    cases n' with
    | zero => simp [List.replicate_succ] at h
    | succ n' =>
      obtain ⟨hk, hn⟩ := ih (List.cons.inj h).2
      exact ⟨hk, congrArg Nat.succ hn⟩

/-- A wrapped value stands next to its key. -/
def paired : KeyScheme Key Unit (Key × (Key ⊕ ProxyCredentials String))
    (Key ⊕ ProxyCredentials String) Unit where
  wrap k _ v := (k, v)
  unwrap k b := if k = b.1 then some b.2 else none
  derive k _ id := List.replicate id 1 ++ 0 :: k
  sealTo _ _ _ := none
  ofKey := .inl
  toKey v := v.elim some fun _ => none
  unwrap_wrap _ _ _ := if_pos rfl
  opensOnce h h' := by
    obtain ⟨rfl, -⟩ := Option.ite_none_right_eq_some.mp h
    obtain ⟨rfl, -⟩ := Option.ite_none_right_eq_some.mp h'
    rfl
  derive_inj := replicate_append_inj
  toKey_ofKey _ := rfl

/-- Credentials next to keys. -/
def besideKeys : Codec String (Key ⊕ ProxyCredentials String) where
  toVec := .inr
  fromSlice v := v.elim (fun _ => none) some
  fromSlice_toVec _ := rfl

/-- A browser with one cookie, which is the key it is encrypted under. -/
def sampleBrowser : Browser where
  jar := ["Default", "Cookies"]
  values content := [content]
  opens k v := v = k
  opensOnce h h' := (of_decide_eq_true h).symm.trans (of_decide_eq_true h')
  jar_synced := by decide

/-- A profile with a proxy, on a disk. -/
def sampleMachine (disk : Disk) : Machine Unit where
  hasServer := true
  orgKey := some (List.replicate 32 0)
  reveal := true
  store := ⟨[⟨"a", ⟨"Ads", "", "", ["warm"], "win11-chrome", 5, [], none, none, ()⟩, some "x"⟩],
    [⟨"x", "Exit", "socks5", "exit.example", 1080, some "user", some "word"⟩]⟩
  vault := ⟨some []⟩
  disk := disk
  profileDir id := [id]

/-- Everything arrives and is answered. -/
def answered : Outcomes :=
  ⟨true, true, .answered, .answered, .answered, .answered, .answered, true, true, .answered, true,
    .answered⟩

/-- The ids of the first proxy and the first profile. -/
def sampleDraws : Draws Unit := ⟨List.replicate 32 0, ((), ()), sampleDrawn, "y", "q"⟩

/-- A server with neither. -/
def sampleServer : Server (Key × (Key ⊕ ProxyCredentials String)) Unit := ⟨[], []⟩

/-- A profile that was never opened. -/
def unopenedDisk : Disk :=
  [(["a"], .dir), (["a", "Default"], .dir), (["a", "Default", "Preferences"], .file [2])]

/-- A profile is created of what is there. -/
theorem sampleMachine_creates (disk : Disk) : ∃ row x, Creates paired besideKeys
    (sampleMachine disk) answered sampleDraws sampleServer "a" (List.replicate 32 0) row x :=
  ⟨_, _, ⟨rfl, rfl, rfl, rfl, rfl, rfl⟩, rfl, rfl, by decide, by decide, rfl, by decide, by decide⟩

/-- What a sample is created of can be packed, and is pushed. -/
theorem sample_fills (disk : Disk) (h : (pack sampleLibrary disk ["a"]
    (.shared (List.replicate 32 0) (some ⟨some []⟩)) sampleDrawn).isOk = true) :
    Fills sampleLibrary (sampleMachine disk) answered sampleDraws "a" (List.replicate 32 0) := by
  refine ⟨rfl, rfl, rfl, rfl, ?_, rfl⟩
  cases hpack : pack sampleLibrary disk ["a"]
      (.shared (List.replicate 32 0) (some ⟨some []⟩)) sampleDrawn with
  | error e =>
    rw [hpack] at h
    cases h
  | ok bundle => exact ⟨bundle, hpack⟩

/-- A profile that was never opened is carried. -/
theorem upload_carries_iff_unopened : Faithful sampleLibrary paired besideKeys id sampleBrowser
    (sampleMachine unopenedDisk) answered sampleDraws sampleServer "a" (List.replicate 32 0) := by
  have hnone : fileAt unopenedDisk ["a", "Default", "Cookies"] = none := by decide
  have hnothing (content : Bytes)
      (h : fileAt unopenedDisk ["a", "Default", "Cookies"] = some content) : False := by
    rw [hnone] at h
    cases h
  have hkept : Kept sampleBrowser (sampleMachine unopenedDisk) "a" [1] :=
    ⟨fileSystem_of_entries (by decide), fun content h => (hnothing content h).elim⟩
  refine (upload_carries_iff sampleLibrary_inverts sampleLibrary_sealsKeys hkept).mpr ?_
  intro orgKey row x h
  cases h.holdsKey
  cases h.found
  cases h.leaves
  refine ⟨sample_fills unopenedDisk (by decide), fun _ _ => ?_⟩
  exact ⟨by decide, rfl, rfl, rfl, by decide, by decide, by decide, by decide, by decide, rfl,
    fun content h => (hnothing content h).elim⟩

/-- The cookies of one that was opened stay encrypted under the key of the machine. -/
theorem opened_cookies_stay : ¬ ∀ (lib : PackLibrary) (b : Browser) (m : Machine Unit)
    (o : Outcomes) (d : Draws Unit) (s : Server (Key × (Key ⊕ ProxyCredentials String)) Unit)
    (profile : String) (machineKey current : Key), Inverts lib → SealsKeys lib →
      Kept b m profile machineKey →
        Faithful lib paired besideKeys id b m o d s profile current := by
  have hjar : fileAt sampleDisk ["a", "Default", "Cookies"] = some [1] := by decide
  have hkept : Kept sampleBrowser (sampleMachine sampleDisk) "a" [1] := by
    refine ⟨fileSystem_of_entries (by decide), fun content h v hv => ?_⟩
    have hcontent : [1] = content := Option.some.inj (hjar.symm.trans h)
    subst hcontent
    exact decide_eq_true (List.mem_singleton.mp hv)
  obtain ⟨row, x, hcreates⟩ := sampleMachine_creates sampleDisk
  intro h
  have hfaithful := h sampleLibrary sampleBrowser (sampleMachine sampleDisk) answered sampleDraws
    sampleServer "a" [1] (List.replicate 32 0) sampleLibrary_inverts sampleLibrary_sealsKeys hkept
  obtain ⟨-, hportable⟩ := (faithful_creates sampleLibrary_inverts sampleLibrary_sealsKeys hkept
    hcreates).mp hfaithful
  have hkey : teamKey sampleLibrary (List.replicate 32 0) sampleDraws.newProfile =
      List.replicate 32 0 := rfl
  rcases (hportable rfl rfl).cookies [1] hjar with hempty | hkeys
  · exact absurd hempty (List.cons_ne_nil _ _)
  · rw [hkey] at hkeys
    exact absurd hkeys (by decide)

end Samples

end FuryBrowser.UploadCarries
