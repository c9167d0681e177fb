import FuryBrowser.BundlePack
import FuryBrowser.ProfileShares
import Mathlib.Algebra.Group.Nat.Defs

/-!
# Sending a local profile to the team

`upload_profile` of the shell reads the profile and its proxy from the agent, creates the proxy and
the profile on the server, takes the profile's lock, has the agent pack the profile's directory
under the key of the new profile and push it, and gives the lock back.

Each call to the server may be lost, refused, answered, or carried out without an answer.
-/

namespace FuryBrowser.ProfileUpload

open RowTable WrappedKeys AgentDisk BundleUnpack BundlePack
open ProfileShares (ProxyCredentials Codec sealProxyCredentials openProxyCredentials)

section Seeds

/-- `seed::to_bytes`, big-endian. -/
def seedToBytes (seed : BitVec 64) : Bytes :=
  [7, 6, 5, 4, 3, 2, 1, 0].map fun i => UInt8.ofNat (seed.toNat / 256 ^ i)

/-- `seed::from_bytes`. -/
def seedFromBytes (bytes : Bytes) : Option (BitVec 64) :=
  if bytes.length = 8 then
    some (BitVec.ofNat 64 (bytes.foldl (fun n b => n * 256 + b.toNat) 0))
  else none

/-- `seed::to_hex`: sixteen lower-case digits. -/
def seedToHex (seed : BitVec 64) : String := hex (seedToBytes seed)

/-- `seed::from_hex`. -/
def seedFromHex (text : String) : Option (BitVec 64) :=
  if (utf8 text).length = 16 ∧ (utf8 text).all (fun b => (hexDigit b).isSome) then
    (hexBytes (utf8 text)).bind seedFromBytes
  else none

end Seeds

section Local

/-- A proxy of this machine, its password as the vault opens it. -/
structure LocalProxy where
  id : String
  name : String
  kind : String
  host : String
  port : ℕ
  username : Option String
  password : Option String
  deriving DecidableEq, Repr

/-- What a profile is set to. Overrides of the machine are of a type of their own. -/
@[ext]
structure Settings (ω : Type) where
  name : String
  notes : String
  status : String
  tags : List String
  personaId : String
  fpSeed : BitVec 64
  /-- The pages it starts with. -/
  startUrls : List String
  /-- The time zone, unless it follows its exit. -/
  timezone : Option String
  /-- The languages, unless they follow its exit. -/
  languages : Option (List String)
  /-- What differs from the persona. -/
  overrides : ω
  deriving DecidableEq

/-- A row of `profiles` of the agent. -/
structure ProfileRow (ω : Type) where
  id : String
  settings : Settings ω
  proxyId : Option String

/-- The agent's store, without what is in the trash. -/
structure Store (ω : Type) where
  profiles : List (ProfileRow ω)
  proxies : List LocalProxy

/-- `LocalProfile`, as the agent answers. -/
structure LocalProfile (ω : Type) where
  id : String
  settings : Settings ω
  proxy : Option LocalProxy

variable {ω : Type}

/-- The proxy of a row. -/
def Store.proxyOf (st : Store ω) (row : ProfileRow ω) : Option LocalProxy :=
  row.proxyId.bind (lookup LocalProxy.id st.proxies)

/-- `profiles.list`: no password. -/
def Store.profilesList (st : Store ω) : List (LocalProfile ω) :=
  st.profiles.map fun row =>
    ⟨row.id, row.settings, (st.proxyOf row).map fun x => { x with password := none }⟩

/-- `proxies.list`. -/
def Store.proxiesList (st : Store ω) : List LocalProxy := st.proxies

end Local

section Server

/-- A row of `proxies` of the server. -/
structure ServerProxy (β : Type) where
  id : String
  name : String
  kind : String
  host : String
  port : ℕ
  /-- The credentials, sealed under a data key. -/
  credentialsEnc : β
  /-- That key, wrapped under the organisation key. -/
  wrappedDek : β

/-- A row of `profiles` of the server, with its bundle. -/
structure ServerProfile (ω : Type) where
  id : String
  name : String
  notes : String
  tags : List String
  personaId : String
  /-- `fp_seed`, eight bytes. -/
  fpSeed : Bytes
  timezone : Option String
  languages : List String
  proxyId : String
  startUrls : List String
  status : String
  overrides : ω
  /-- The current row of `bundles`. -/
  bundle : Option Sealed

/-- The server, as far as an upload sees it. -/
structure Server (β : Type) (ω : Type) where
  /-- `proxies`, of the organisation. -/
  proxies : List (ServerProxy β)
  profiles : List (ServerProfile ω)

/-- A value in JSON. -/
inductive Json where
  | null
  | num (n : ℤ)
  | str (s : String)
  deriving DecidableEq, Repr

/-- An object in JSON. -/
abbrev JsonObject := List (String × Json)

/-- `ProxyRequest` and `EditProxyRequest`. -/
structure ProxyRequest (β : Type) where
  name : String
  kind : String
  host : String
  port : ℕ
  credentialsEnc : β
  wrappedDek : β

/-- `NewProfileRequest`. -/
structure NewProfileRequest (ω : Type) where
  name : String
  tags : List String
  personaId : String
  /-- The seed in sixteen digits. -/
  fpSeed : String
  /-- The time zone, or nothing. -/
  timezone : String
  /-- The languages, or none. -/
  languages : List String
  proxyId : String
  /-- The pages it starts with. -/
  startUrls : List String
  notes : String
  status : String
  /-- What differs from the persona. -/
  overrides : ω

variable {β ω : Type} (s : Server β ω)

/-- `ProxySummary` of a row, in JSON, up to the fields that say how it has been used. -/
def ServerProxy.summary (mask : String → String) (reveal : Bool) (x : ServerProxy β) : JsonObject :=
  [("id", .str x.id), ("name", .str x.name), ("kind", .str x.kind),
    ("display", .str ((if reveal then x.host else mask x.host) ++ ":" ++ toString x.port))]

/-- `list_proxies`. -/
def Server.listProxies (mask : String → String) (reveal : Bool) : List JsonObject :=
  s.proxies.map (ServerProxy.summary mask reveal)

/-- The kind, the port and the host that a proxy may have. -/
def ProxyRequest.valid (req : ProxyRequest β) : Bool :=
  ["http", "https", "socks5", "wireguard"].contains req.kind &&
    (1 ≤ req.port && req.port ≤ 65535) && trim req.host ≠ ""

/-- `create_proxy`, under a new id. -/
def Server.createProxy (new : String) (req : ProxyRequest β) : Option (String × Server β ω) :=
  if req.valid && s.proxies.all (fun x => x.id ≠ new) then
    some (new, { s with proxies := ⟨new, trim req.name, req.kind, trim req.host, req.port,
      req.credentialsEnc, req.wrappedDek⟩ :: s.proxies })
  else none

/-- `edit_proxy`: the mask of the stored host means that it stays. -/
def Server.editProxy (mask : String → String) (id : String) (req : ProxyRequest β) :
    Option (Unit × Server β ω) :=
  if req.valid && s.proxies.any (fun x => x.id = id) then
    some ((), { s with proxies := updateWhere (fun x => x.id = id) (fun x => {
      id := x.id
      name := trim req.name
      kind := req.kind
      host := if trim req.host = mask x.host then x.host else trim req.host
      port := req.port
      credentialsEnc := req.credentialsEnc
      wrappedDek := req.wrappedDek }) s.proxies })
  else none

/-- `create_profile`, under a new id. -/
def Server.createProfile (new : String) (req : NewProfileRequest ω) :
    Option (String × Server β ω) :=
  if trim req.name ≠ "" && s.proxies.any (fun x => x.id = req.proxyId) &&
      s.profiles.all (fun p => p.id ≠ new) then
    (seedFromHex req.fpSeed).map fun seed => (new, { s with profiles := {
      id := new
      name := trim req.name
      notes := req.notes
      tags := req.tags
      personaId := req.personaId
      fpSeed := seedToBytes seed
      timezone := (some (trim req.timezone)).filter fun t => t ≠ ""
      languages := req.languages
      proxyId := req.proxyId
      startUrls := req.startUrls
      status := trim req.status
      overrides := req.overrides
      bundle := none } :: s.profiles })
  else none

/-- The upload of a first bundle: a profile that has one is ahead of it. -/
def Server.pushBundle (id : String) (sealed : Sealed) : Option (Unit × Server β ω) :=
  if s.profiles.any (fun p => p.id = id && p.bundle.isNone) then
    some ((), { s with
      profiles := updateWhere (fun p => p.id = id) (fun p => { p with bundle := some sealed })
        s.profiles })
  else none

end Server

section Client

/-- What becomes of a call. -/
inductive Delivery where
  | lost
  /-- It is refused, for reasons that are not looked at here. -/
  | refused
  /-- It is carried out, if it can be, and answered. -/
  | answered
  /-- It is carried out, and the answer does not arrive. -/
  | unanswered
  deriving DecidableEq, Repr

/-- It is carried out, if it can be. -/
def Delivery.arrives (d : Delivery) : Bool := d = .answered || d = .unanswered

/-- What becomes of each step of an upload. -/
structure Outcomes where
  /-- The agent answers `profiles.list`. -/
  profilesList : Bool
  /-- And `proxies.list`. -/
  proxiesList : Bool
  /-- `GET /v1/proxies`. -/
  listProxies : Delivery
  /-- `POST /v1/proxies`. -/
  createProxy : Delivery
  /-- `PATCH /v1/proxies/{id}`. -/
  editProxy : Delivery
  /-- `POST /v1/projects/{id}/profiles`. -/
  createProfile : Delivery
  /-- `POST /v1/profiles/{id}/lock`. -/
  lock : Delivery
  /-- There still are a server address and a token. -/
  signedIn : Bool
  /-- No browser has the profile open. -/
  closed : Bool
  /-- `POST /v1/profiles/{id}/bundle`. -/
  pushBundle : Delivery
  /-- The agent's answer to `profile.uploadTo` arrives. -/
  agentAnswers : Bool
  /-- `POST /v1/profiles/{id}/unlock`. -/
  unlock : Delivery
  deriving DecidableEq, Repr

/-- What an upload draws, and the ids that the server does. -/
structure Draws (η : Type) where
  /-- The data key of the proxy. -/
  dek : Key
  /-- The nonces for its credentials and for that key. -/
  nonces : η × η
  bundle : Drawn
  newProxy : String
  /-- The id of a new profile. -/
  newProfile : String

/-- The machine of somebody who uploads. -/
structure Machine (ω : Type) where
  /-- It is connected to a server. -/
  hasServer : Bool
  /-- The organisation key that its shell holds. -/
  orgKey : Option Key
  /-- They may see where proxies are. -/
  reveal : Bool
  store : Store ω
  vault : Vault
  disk : Disk
  profileDir : String → Path

/-- Why an upload fails. -/
inductive UploadError where
  /-- There is no server to send it to. -/
  | noServer
  /-- This machine is not holding the organisation key. -/
  | noOrgKey
  /-- That profile is not on this machine. -/
  | notHere
  /-- `err.uploadNeedsProxy`. -/
  | needsProxy
  | unauthenticated
  | open
  | pack (e : AgentError)
  | call
  deriving DecidableEq, Repr

variable {η β ν π ω : Type}

/-- Something that is done with the server, and may fail after it has. -/
abbrev ServerOp (β : Type) (ω : Type) := EStateM UploadError (Server β ω)

/-- A call to the server. -/
def call {α : Type} (d : Delivery) (handler : Server β ω → Option (α × Server β ω)) :
    ServerOp β ω α := fun s =>
  if d.arrives then match handler s with
    | some (a, s') => if d = .answered then .ok a s' else .error .call s'
    | none => .error .call s
  else .error .call s

/-- A call to the agent that reads. -/
def answer {α : Type} (answers : Bool) (a : α) : ServerOp β ω α :=
  if answers then pure a else throw .call

/-- What a call comes to, as a value. -/
def result {α : Type} (x : ServerOp β ω α) : ServerOp β ω (Except UploadError α) := fun s =>
  match x s with
  | .ok a s' => .ok (.ok a) s'
  | .error e s' => .ok (.error e) s'

/-- A member of an object. -/
def field (key : String) (x : JsonObject) : Option Json := x.lookup key

/-- The proxy of the server at the same host and port. -/
def matching (existing : List JsonObject) (p : LocalProxy) : Option String :=
  (existing.find? fun x => field "host" x = some (.str p.host) &&
    field "port" x = some (.num p.port)).bind fun x =>
      match field "id" x with
      | some (.str id) => some id
      | _ => none

/-- The body of `upload_body`. -/
structure UploadBody (ω : Type) where
  name : String
  tags : List String
  personaId : String
  fpSeed : String
  timezone : String
  languages : List String
  overrides : ω
  proxyId : Option String

/-- `upload_body`. -/
def uploadBody (me : LocalProfile ω) (proxyId : Option String) : UploadBody ω where
  name := me.settings.name
  tags := me.settings.tags
  personaId := me.settings.personaId
  fpSeed := seedToHex me.settings.fpSeed
  timezone := me.settings.timezone.getD ""
  languages := me.settings.languages.getD []
  overrides := me.settings.overrides
  proxyId := proxyId

/-- How the server reads it: what is not there has its default, but there has to be a proxy. -/
def UploadBody.parse (body : UploadBody ω) : Option (NewProfileRequest ω) :=
  body.proxyId.map fun proxyId => {
    name := body.name
    tags := body.tags
    personaId := body.personaId
    fpSeed := body.fpSeed
    timezone := body.timezone
    languages := body.languages
    proxyId := proxyId
    startUrls := []
    notes := ""
    status := ""
    overrides := body.overrides }

variable (lib : PackLibrary) (K : KeyScheme Key η β ν π) (C : Codec String ν)
variable (mask : String → String) (m : Machine ω) (o : Outcomes) (d : Draws η)

/-- `profile_key`. -/
def profileKey (orgKey : Key) (id : String) : Key := lib.subkey orgKey "fury-profile-v1" id

/-- `os_crypt_key`. -/
def osCryptKey (profileKey : Key) (id : String) : Key := lib.subkey profileKey "fury-oscrypt-v1" id

/-- The credentials of a proxy: nothing that is empty. -/
def LocalProxy.credentials (p : LocalProxy) : ProxyCredentials String :=
  ⟨p.username.filter fun v => v ≠ "", p.password.filter fun v => v ≠ ""⟩

/-- What the server is sent of a proxy. -/
def proxyRequest (orgKey : Key) (p : LocalProxy) : ProxyRequest β :=
  let sealed := sealProxyCredentials K C orgKey d.dek d.nonces p.credentials
  ⟨p.name, p.kind, p.host, p.port, sealed.1, sealed.2⟩

/-- The proxy of the server that the profile is to leave through. -/
def exitProxy (orgKey : Key) (p : LocalProxy) : ServerOp β ω (Option String) := do
  let existing ← call o.listProxies fun s => some (s.listProxies mask m.reveal, s)
  match matching existing p with
  | some id => do
    -- It is re-sealed if there is a password, and a refusal is only logged.
    if p.credentials.password.isSome then
      let _ ← result (call o.editProxy fun s => s.editProxy mask id (proxyRequest K C d orgKey p))
    pure (some id)
  | none => do
    let id ← call o.createProxy fun s => s.createProxy d.newProxy (proxyRequest K C d orgKey p)
    pure (some id)

/-- `profile.uploadTo`, of the agent. -/
def uploadTo (id remoteId : String) (key : Key) : ServerOp β ω Unit := do
  if !o.closed then throw .open
  match pack lib m.disk (m.profileDir id) (.shared key (some m.vault)) d.bundle with
  | .error e => throw (.pack e)
  | .ok sealed => call o.pushBundle fun s => s.pushBundle remoteId sealed

/-- What `upload_profile` does once the profile is created. -/
def fillProfile (orgKey : Key) (id remoteId : String) : ServerOp β ω Unit := do
  call o.lock fun s => some ((), s)
  if !o.signedIn then throw .unauthenticated
  let uploaded ← result do
    uploadTo lib m o d id remoteId (profileKey lib orgKey remoteId)
    answer o.agentAnswers ()
  -- The lock goes back whatever happened, and a refusal is only logged.
  let _ ← result (call o.unlock fun s => some ((), s))
  match uploaded with
  | .ok _ => pure ()
  | .error e => throw e

/-- What it does once the proxy is there. -/
def sendProfile (orgKey : Key) (me : LocalProfile ω) (proxyId : Option String) :
    ServerOp β ω String := do
  let remoteId ← call o.createProfile fun s => (uploadBody me proxyId).parse.bind fun req =>
    s.createProfile d.newProfile req
  fillProfile lib m o d orgKey me.id remoteId
  pure remoteId

/-- `upload_profile`. -/
def uploadProfile (id : String) : ServerOp β ω String := do
  if !m.hasServer then throw .noServer
  let some orgKey := m.orgKey | throw .noOrgKey
  let profiles ← answer o.profilesList m.store.profilesList
  let some me := lookup LocalProfile.id profiles id | throw .notHere
  let some listed := me.proxy | throw .needsProxy
  let proxies ← answer o.proxiesList m.store.proxiesList
  let full := lookup LocalProxy.id proxies listed.id
  let proxyId ← exitProxy K C mask m o d orgKey (full.getD listed)
  sendProfile lib m o d orgKey me proxyId

end Client

end FuryBrowser.ProfileUpload
