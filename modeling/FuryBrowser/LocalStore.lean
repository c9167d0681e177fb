import FuryBrowser.BundlePack
import FuryBrowser.RowTable
import FuryBrowser.Totp

/-!
# The local store

What one machine knows without a server: projects, proxies, profiles and logins, in four tables
with foreign keys. Deleting a project, a proxy or a profile marks its row; a profile that is purged
and a login that is deleted are gone.

The passwords, the rotation links and the seeds of codes are sealed on the way in and opened on
the way out by the vault of the machine.
-/

namespace FuryBrowser.LocalStore

open RowTable AgentDisk BundleUnpack BundlePack

section Tables

/-- A row of `projects`. -/
structure ProjectRow where
  id : String
  name : String
  notes : String
  /-- `deleted_at` is set. -/
  deleted : Bool
  deriving DecidableEq, Repr

/-- A row of `proxies`. -/
structure ProxyRow where
  id : String
  name : String
  kind : String
  host : String
  port : ℕ
  username : Option String
  /-- `password`, sealed. -/
  password : Option String
  /-- `rotate_url`, sealed. -/
  rotateUrl : Option String
  checkerUrl : Option String
  lastIp : Option String
  lastCountry : Option String
  lastTimezone : Option String
  lastLocation : Option String
  /-- `deleted_at` is set. -/
  deleted : Bool
  deriving DecidableEq, Repr

/-- A row of `profiles`. The machine's overrides are of a type of their own. -/
structure ProfileRow (ω : Type) where
  id : String
  projectId : Option String
  name : String
  notes : String
  tags : List String
  blocklists : List String
  status : String
  personaId : String
  fpSeed : ℤ
  proxyId : Option String
  timezone : Option String
  languages : Option (List String)
  startUrls : List String
  allowNoProxy : Bool
  overrides : ω
  lastOpenedAt : Option String
  /-- `deleted_at` is set. -/
  deleted : Bool
  deriving DecidableEq, Repr

/-- A row of `credentials`. -/
structure CredentialRow where
  id : String
  profileId : String
  label : String
  site : String
  username : Option String
  /-- `password`, sealed. -/
  password : Option String
  /-- `totp`, sealed. -/
  totp : Option String
  notes : String
  deriving DecidableEq, Repr

/-- The tables. -/
structure Db (ω : Type) where
  projects : List ProjectRow
  proxies : List ProxyRow
  profiles : List (ProfileRow ω)
  credentials : List CredentialRow
  deriving DecidableEq, Repr

end Tables

section Values

/-- `Project`. -/
structure Project where
  id : String
  name : String
  notes : String
  /-- How many profiles are in it. -/
  profileCount : ℕ
  deriving DecidableEq, Repr

/-- `Proxy`, with its secrets in the clear. -/
structure Proxy where
  /-- Which, or nothing for a new one. -/
  id : String
  name : String
  kind : String
  host : String
  port : ℕ
  username : Option String
  password : Option String
  /-- The country of its exit. -/
  lastCountry : Option String
  /-- The address of its exit. -/
  lastIp : Option String
  lastTimezone : Option String
  lastLocation : Option String
  /-- The link that changes the exit. -/
  rotateUrl : Option String
  /-- Where to ask what the exit looks like. -/
  checkerUrl : Option String
  deriving DecidableEq, Repr

/-- `Profile`. -/
structure Profile (ω : Type) where
  /-- Which, or nothing for a new one. -/
  id : String
  projectId : Option String
  projectName : Option String
  name : String
  notes : String
  tags : List String
  status : String
  /-- The names of its lists. -/
  blocklists : List String
  personaId : String
  /-- The seed, or zero for a new one. -/
  fpSeed : ℤ
  /-- It may open without a proxy. -/
  allowNoProxy : Bool
  /-- Its proxy, for a reader. -/
  proxy : Option Proxy
  /-- Its proxy, for a writer. -/
  proxyId : Option String
  /-- The time zone, unless it follows its exit. -/
  timezone : Option String
  /-- The languages, unless they follow it. -/
  languages : Option (List String)
  /-- What differs from the persona. -/
  overrides : ω
  /-- The pages it starts with. -/
  startUrls : List String
  /-- When it was last opened. -/
  lastOpenedAt : Option String
  deriving DecidableEq, Repr

/-- `Credential`, with its secrets in the clear. -/
structure Credential where
  /-- Which, or nothing for a new one. -/
  id : String
  profileId : String
  label : String
  site : String
  username : Option String
  password : Option String
  totp : Option String
  notes : String
  deriving DecidableEq, Repr

end Values

namespace Db

variable {ω : Type} (db : Db ω)

section Projects

/-- `projects`. -/
def projectsList : List Project :=
  (db.projects.filter fun p => !p.deleted).map fun p =>
    ⟨p.id, p.name, p.notes,
      db.profiles.countP fun f => f.projectId = some p.id && !f.deleted⟩

/-- `create_project`, under a new id. -/
def createProject (new name notes : String) : Db ω :=
  { db with projects := ⟨new, name, notes, false⟩ :: db.projects }

/-- `rename_project`. -/
def renameProject (id name notes : String) : Db ω :=
  { db with
    projects := updateWhere (fun p => p.id = id) (fun p => { p with name := name, notes := notes })
      db.projects }

/-- `delete_project`: its profiles stay, in no project. -/
def deleteProject (id : String) : Db ω :=
  { db with
    profiles := updateWhere (fun f => f.projectId = some id && !f.deleted)
      (fun f => { f with projectId := none }) db.profiles
    projects := updateWhere (fun p => p.id = id) (fun p => { p with deleted := true })
      db.projects }

end Projects

section Proxies

variable (lib : PackLibrary) (vault : Vault)

/-- `open_proxy` of a row, as `proxies` reads it: the position is not among the columns. -/
def openProxy (x : ProxyRow) : Proxy where
  id := x.id
  name := x.name
  kind := x.kind
  host := x.host
  port := x.port
  username := x.username
  password := x.password.map (vault.openValue lib.toSealLibrary)
  lastCountry := x.lastCountry
  lastIp := x.lastIp
  lastTimezone := x.lastTimezone
  lastLocation := none
  rotateUrl := x.rotateUrl.map (vault.openValue lib.toSealLibrary)
  checkerUrl := x.checkerUrl

/-- `proxies`. -/
def proxiesList : List Proxy :=
  (db.proxies.filter fun x => !x.deleted).map (openProxy lib vault)

/-- What `upsert_proxy` stores of a secret: one that cannot be opened now, and for which nothing
new was typed, stays. -/
def secret (nonce : Bytes) (incoming old : Option String) : Option String :=
  match incoming.filter (fun v => v ≠ ""), old with
  | none, some old =>
    if (vault.tryOpen lib.toSealLibrary old).isNone then some old
    else incoming.map (vaultSeal lib vault nonce)
  | _, _ => incoming.map (vaultSeal lib vault nonce)

/-- The columns that `upsert_proxy` sets in a row that is there: not what its exit looked like. -/
def proxySavedOver (p : Proxy) (password rotateUrl : Option String) (x : ProxyRow) : ProxyRow := {
  x with
  name := p.name
  kind := p.kind
  host := p.host
  port := p.port
  username := p.username
  password := password
  rotateUrl := rotateUrl
  checkerUrl := p.checkerUrl
  deleted := false }

/-- The row that it inserts. -/
def insertedProxy (id : String) (p : Proxy) (password rotateUrl : Option String) : ProxyRow where
  id := id
  name := p.name
  kind := p.kind
  host := p.host
  port := p.port
  username := p.username
  password := password
  rotateUrl := rotateUrl
  checkerUrl := p.checkerUrl
  lastIp := none
  lastCountry := none
  lastTimezone := none
  lastLocation := none
  deleted := false

/-- `upsert_proxy`, with what it draws: an id, and a nonce for each secret. -/
def upsertProxy (new : String) (nonces : Bytes × Bytes) (p : Proxy) : String × Db ω :=
  let id := if p.id = "" then new else p.id
  let stored := if p.id = "" then none else lookup ProxyRow.id db.proxies id
  let password := secret lib vault nonces.1 p.password (stored.bind ProxyRow.password)
  let rotateUrl := secret lib vault nonces.2 p.rotateUrl (stored.bind ProxyRow.rotateUrl)
  (id, { db with
    proxies :=
      if db.proxies.any (fun x => x.id = id) then
        updateWhere (fun x => x.id = id) (proxySavedOver p password rotateUrl) db.proxies
      else insertedProxy id p password rotateUrl :: db.proxies })

/-- A proxy is saved over its row, or as a new row under an id no row has. -/
theorem upsertProxy_cases (new : String) (nonces : Bytes × Bytes) (p : Proxy) :
    ∃ id password rotateUrl, id = (if p.id = "" then new else p.id) ∧
      password = secret lib vault nonces.1 p.password
        ((if p.id = "" then none else lookup ProxyRow.id db.proxies id).bind ProxyRow.password) ∧
      ((∃ x ∈ db.proxies, x.id = id) ∧ db.upsertProxy lib vault new nonces p = (id, { db with
          proxies := updateWhere (fun x => x.id = id) (proxySavedOver p password rotateUrl)
            db.proxies }) ∨
        (∀ x ∈ db.proxies, x.id ≠ id) ∧
          db.upsertProxy lib vault new nonces p = (id, { db with
            proxies := insertedProxy id p password rotateUrl :: db.proxies })) := by
  refine ⟨if p.id = "" then new else p.id, _, secret lib vault nonces.2 p.rotateUrl
    ((if p.id = "" then none else lookup ProxyRow.id db.proxies
      (if p.id = "" then new else p.id)).bind ProxyRow.rotateUrl), rfl, rfl, ?_⟩
  by_cases hthere : db.proxies.any (fun x => x.id = if p.id = "" then new else p.id) = true
  · refine .inl ⟨by simpa using hthere, ?_⟩
    simp only [upsertProxy, hthere, if_true]
  · refine .inr ⟨by simpa using hthere, ?_⟩
    simp only [upsertProxy, hthere]
    rfl

/-- `record_exit`. -/
def recordExit (id : String) (ip country timezone location : Option String) : Db ω :=
  { db with
    proxies := updateWhere (fun x => x.id = id) (fun x => {
      x with
      lastIp := ip
      lastCountry := country
      lastTimezone := timezone
      lastLocation := location }) db.proxies }

/-- `delete_proxy`. -/
def deleteProxy (id : String) : Db ω :=
  { db with
    proxies := updateWhere (fun x => x.id = id) (fun x => { x with deleted := true })
      db.proxies }

end Proxies

section Credentials

variable (lib : PackLibrary) (vault : Vault)

/-- `open_credential` of a row. -/
def openCredential (x : CredentialRow) : Credential where
  id := x.id
  profileId := x.profileId
  label := x.label
  site := x.site
  username := x.username
  password := x.password.map (vault.openValue lib.toSealLibrary)
  totp := x.totp.map (vault.openValue lib.toSealLibrary)
  notes := x.notes

/-- `credentials`. -/
def credentialsList (profile : String) : List Credential :=
  (db.credentials.filter fun x => x.profileId = profile).map (openCredential lib vault)

/-- The seed that `upsert_credential` seals: as a link, whatever was pasted. -/
def normalTotp (incoming : Option String) : Except Totp.Error (Option String) :=
  match (incoming.map fun raw => TextBytes.trimText raw.toList).filter (· ≠ []) with
  | none => .ok none
  | some raw => (Totp.parse raw).map fun totp => some (.ofList totp.toUri)

/-- The columns that `upsert_credential` sets in a row that is there: not the profile. -/
def credentialSavedOver (c : Credential) (password totp : Option String) (x : CredentialRow) :
    CredentialRow := {
  x with
  label := c.label
  site := c.site
  username := c.username
  password := password
  totp := totp
  notes := c.notes }

/-- `upsert_credential`, with what it draws: an id, and a nonce for each secret. A seed that is
none is refused, and an unknown profile breaks a foreign key. -/
def upsertCredential (new : String) (nonces : Bytes × Bytes) (c : Credential) :
    Option (String × Db ω) :=
  match normalTotp c.totp with
  | .error _ => none
  | .ok totp =>
    let id := if c.id = "" then new else c.id
    let password := (c.password.filter fun v => v ≠ "").map (vaultSeal lib vault nonces.1)
    let totp := totp.map (vaultSeal lib vault nonces.2)
    if db.credentials.any (fun x => x.id = id) then
      some (id, { db with
        credentials := updateWhere (fun x => x.id = id) (credentialSavedOver c password totp)
          db.credentials })
    else if db.profiles.any (fun f => f.id = c.profileId) then
      some (id, { db with
        credentials := ⟨id, c.profileId, c.label, c.site, c.username, password, totp, c.notes⟩ ::
          db.credentials })
    else none

end Credentials

section Profiles

/-- The row of the proxy that the listings join to a profile. -/
def proxyOf (f : ProfileRow ω) : Option ProxyRow :=
  f.proxyId.bind fun id => db.proxies.find? fun x => x.id = id && !x.deleted

/-- A proxy in a listing of profiles: no secrets. -/
def joinedProxy (x : ProxyRow) : Proxy where
  id := x.id
  name := x.name
  kind := x.kind
  host := x.host
  port := x.port
  username := x.username
  password := none
  lastCountry := x.lastCountry
  lastIp := x.lastIp
  lastTimezone := x.lastTimezone
  lastLocation := x.lastLocation
  rotateUrl := none
  checkerUrl := none

/-- `row_to_profile`, with the project and the proxy that are joined. -/
def rowToProfile (f : ProfileRow ω) : Profile ω where
  id := f.id
  projectId := f.projectId
  projectName := f.projectId.bind fun id =>
    (db.projects.find? fun p => p.id = id && !p.deleted).map ProjectRow.name
  name := f.name
  notes := f.notes
  tags := f.tags
  status := f.status
  blocklists := f.blocklists
  personaId := f.personaId
  fpSeed := f.fpSeed
  allowNoProxy := f.allowNoProxy
  proxy := (db.proxyOf f).map joinedProxy
  proxyId := (db.proxyOf f).map ProxyRow.id
  timezone := f.timezone
  languages := f.languages
  overrides := f.overrides
  startUrls := f.startUrls
  lastOpenedAt := f.lastOpenedAt

/-- `profiles`: every profile that is not in the trash, or one project's. -/
def profilesList (project : Option String) : List (Profile ω) :=
  (db.profiles.filter fun f =>
    (project.isNone || f.projectId = project) && !f.deleted).map db.rowToProfile

/-- `move_profiles`. An unknown project breaks a foreign key, if there is a profile to move. -/
def moveProfiles (ids : List String) (project : Option String) : Option (Db ω) :=
  let moves (f : ProfileRow ω) : Bool := ids.contains f.id && !f.deleted
  if project.all (fun id => db.projects.any fun p => p.id = id) || !db.profiles.any moves then
    some { db with
      profiles := updateWhere moves (fun f => { f with projectId := project }) db.profiles }
  else none

/-- The proxy that `upsert_profile` stores: what a writer says comes before what a reader saw. -/
def proxyIdOf (p : Profile ω) : Option String :=
  (p.proxyId.filter fun id => id ≠ "").orElse fun _ => p.proxy.map Proxy.id

/-- The columns that `upsert_profile` sets in a row that is there: neither the seed nor when it was
last opened. -/
def savedOver (p : Profile ω) (f : ProfileRow ω) : ProfileRow ω := {
  f with
  projectId := p.projectId
  name := p.name
  notes := p.notes
  tags := p.tags
  blocklists := p.blocklists
  status := trim p.status
  personaId := p.personaId
  proxyId := proxyIdOf p
  timezone := p.timezone
  languages := p.languages
  startUrls := p.startUrls
  allowNoProxy := p.allowNoProxy
  overrides := p.overrides
  deleted := false }

/-- The row that it inserts. A new profile without a seed gets the drawn one. -/
def insertedRow (id : String) (seed : ℤ) (p : Profile ω) : ProfileRow ω where
  id := id
  projectId := p.projectId
  name := p.name
  notes := p.notes
  tags := p.tags
  blocklists := p.blocklists
  status := trim p.status
  personaId := p.personaId
  fpSeed := if p.fpSeed = 0 then seed else p.fpSeed
  proxyId := proxyIdOf p
  timezone := p.timezone
  languages := p.languages
  startUrls := p.startUrls
  allowNoProxy := p.allowNoProxy
  overrides := p.overrides
  lastOpenedAt := none
  deleted := false

/-- `upsert_profile`, with what it draws: an id and a seed. An unknown project or proxy breaks a
foreign key. -/
def upsertProfile (new : String) (seed : ℤ) (p : Profile ω) : Option (String × Db ω) :=
  let id := if p.id = "" then new else p.id
  if p.projectId.all (fun id => db.projects.any fun p => p.id = id) &&
      (proxyIdOf p).all (fun id => db.proxies.any fun x => x.id = id) then
    some (id, { db with
      profiles :=
        if db.profiles.any (fun f => f.id = id) then
          updateWhere (fun f => f.id = id) (savedOver p) db.profiles
        else insertedRow id seed p :: db.profiles })
  else none

/-- A profile is saved over its row, or as a new row under an id no row has. -/
theorem upsertProfile_cases {db after : Db ω} {new id : String} {seed : ℤ} {p : Profile ω}
    (h : db.upsertProfile new seed p = some (id, after)) :
    (∀ x, proxyIdOf p = some x → ∃ row ∈ db.proxies, row.id = x) ∧
    id = (if p.id = "" then new else p.id) ∧
    ((∃ f ∈ db.profiles, f.id = id) ∧ after = { db with
        profiles := updateWhere (fun f => f.id = id) (savedOver p) db.profiles } ∨
      (∀ f ∈ db.profiles, f.id ≠ id) ∧
        after = { db with profiles := insertedRow id seed p :: db.profiles }) := by
  simp only [upsertProfile] at h
  generalize hid : (if p.id = "" then new else p.id) = chosen at h
  split at h
  · rename_i hkeys
    obtain ⟨-, hproxy⟩ := Bool.and_eq_true_iff.mp hkeys
    obtain ⟨rfl, rfl⟩ := Prod.mk.inj (Option.some.inj h)
    refine ⟨fun x hx => ?_, rfl, ?_⟩
    · rw [hx, Option.all_some, List.any_eq_true] at hproxy
      obtain ⟨row, hrow, heq⟩ := hproxy
      exact ⟨row, hrow, of_decide_eq_true heq⟩
    · split
      · rename_i hthere
        exact .inl ⟨by simpa using hthere, rfl⟩
      · rename_i hnew
        exact .inr ⟨by simpa using hnew, rfl⟩
  · cases h

/-- `reseed_profile`. -/
def reseedProfile (id : String) (seed : ℤ) : Option (Db ω) :=
  if db.profiles.any (fun f => f.id = id && !f.deleted) then
    some { db with
      profiles := updateWhere (fun f => f.id = id && !f.deleted)
        (fun f => { f with fpSeed := seed }) db.profiles }
  else none

/-- `delete_profile`: to the trash. -/
def deleteProfile (id : String) : Db ω :=
  { db with
    profiles := updateWhere (fun f => f.id = id) (fun f => { f with deleted := true })
      db.profiles }

/-- `touch_opened`. -/
def touchOpened (id now : String) : Db ω :=
  { db with
    profiles := updateWhere (fun f => f.id = id) (fun f => { f with lastOpenedAt := some now })
      db.profiles }

/-- `restore_profile`: into its project, if that is still there. -/
def restoreProfile (id : String) : Db ω :=
  { db with
    profiles := updateWhere (fun f => f.id = id) (fun f => {
      f with
      deleted := false
      projectId := f.projectId.filter fun id =>
        db.projects.any fun p => p.id = id && !p.deleted }) db.profiles }

/-- The query of `purge_profile`: only what is in the trash, and its logins with it. -/
def purgeRow (id : String) : Db ω :=
  { db with
    profiles := deleteWhere (fun f => f.id = id && f.deleted) db.profiles
    credentials :=
      deleteWhere (fun c => c.profileId = id && db.profiles.any fun f => f.id = id && f.deleted)
        db.credentials }

end Profiles

end Db

end FuryBrowser.LocalStore
