import FuryBrowser.HostMask
import FuryBrowser.TeamRequests

/-!
# Listings that show proxies

Four listings show what a profile goes out through: the profiles of a project, those of all
projects, the proxies of the organisation, and the profiles that others have shared. Each puts
host and port together for itself, under permissions it reads for itself. For whoever may not
see secrets the first three give what they would show somebody who may, of a database in which
every host is its mask.
-/

namespace FuryBrowser.ProxyListings

open RowTable Permissions HostMask
open TeamTables (ProfileGrant Project)
open TeamRequests (Caller)

universe u

/-- What is not the server's own. -/
structure Platform where
  sha256 : List UInt8 → Vector UInt8 32
  /-- `to_lowercase`. -/
  lowercase : String → String
  /-- The database's order of names. -/
  collate : String → String → Bool

/-- A row of `proxies`. -/
structure Proxy where
  id : ℕ
  org : ℕ
  name : String
  kind : String
  host : Text
  port : ℕ
  /-- `last_country`. -/
  country : Option String
  /-- `last_kind_detected`. -/
  detected : Option String
  /-- `last_checked_at`. -/
  checked : Option String
  createdBy : Option ℕ
  /-- `deleted_at` is set. -/
  deleted : Bool
  deriving DecidableEq, Repr

/-- The other columns of a profile. -/
structure ProfileColumns (ρ : Type u) where
  name : String
  /-- `persona_id`. -/
  persona : String
  tags : List String
  /-- `proxy_id`. -/
  proxy : Option ℕ
  /-- What else a project's listing shows. -/
  rest : ρ

/-- The other columns of a share. -/
structure ShareColumns where
  grantedBy : ℕ
  wrappedKey : List UInt8
  wrappedProxyKey : Option (List UInt8)
  deriving DecidableEq, Repr

/-- The database. -/
structure Db (ρ : Type u) where
  /-- Persons, projects, profiles and grants. -/
  team : TeamTables.Db
  /-- The primary key of `profiles`. -/
  profileIds : KeyUnique TeamTables.Profile.id team.profiles
  /-- `users.email`. -/
  email : ℕ → String
  /-- `projects.name`. -/
  projectName : ℕ → String
  /-- The other columns of `profiles`. -/
  columns : ℕ → ProfileColumns ρ
  /-- The other columns of `profile_grants`. -/
  shareColumns : ℕ × ℕ → ShareColumns
  proxies : List Proxy
  proxyIds : KeyUnique Proxy.id proxies

/-- A proxy in a listing. -/
structure ProxySummary where
  id : ℕ
  name : String
  kind : String
  /-- Host and port, as they are shown. -/
  display : Text
  country : Option String
  /-- What it was found to be. -/
  detectedKind : Option String
  lastChecked : Option String
  /-- How many profiles go out through it. -/
  sharedWithProfiles : ℕ
  addedBy : Option String
  /-- The caller may change it. -/
  mayChange : Option Bool
  deriving DecidableEq, Repr

/-- Who has a profile open. -/
structure LockInfo where
  user : ℕ
  email : String
  expires : ℕ
  deriving DecidableEq, Repr

/-- A profile in a listing. -/
structure ProfileSummary (ρ : Type u) where
  id : ℕ
  project : ℕ
  projectName : String
  name : String
  tags : List String
  persona : String
  /-- What it goes out through. -/
  proxy : Option ProxySummary
  lock : Option LockInfo
  /-- What the caller may do. -/
  permissions : List Perm
  /-- With how many it is shared. -/
  sharedWith : ℕ
  rest : ρ

/-- A profile that somebody has shared. -/
structure SharedProfile where
  id : ℕ
  name : String
  persona : String
  tags : List String
  sharedBy : String
  permissions : PermSet
  expires : Option ℕ
  /-- The profile's sealed key. -/
  wrappedKey : List UInt8
  wrappedProxyKey : Option (List UInt8)
  /-- Host and port of the proxy, as they are shown. -/
  proxyDisplay : Option Text
  deriving DecidableEq, Repr

/-- Why a listing is refused. -/
inductive Refusal where
  /-- `ApiError::NotFound`. -/
  | notFound
  /-- `ApiError::Denied`. -/
  | denied (p : Perm)
  deriving DecidableEq, Repr

/-- What an owner or admin holds everywhere, and nobody else anywhere. -/
def implicitPermissions (c : Caller) : PermSet :=
  if hasImplicitProjectAccess c.role then PermSet.all else PermSet.none

section Listings

variable {ρ : Type u} (P : Platform) (db : Db ρ) (c : Caller)

/-- The policy of `proxies`. -/
def seesProxy (user : ℕ) (x : Proxy) : Bool :=
  db.team.inOrg user x.org || db.team.profiles.any fun p =>
    (db.columns p.id).proxy = some x.id && !p.deleted && db.team.holdsShare user p.id

/-- The proxy of a profile, where there is one that is not deleted. -/
def proxyOf (user profile : ℕ) : Option Proxy :=
  (db.columns profile).proxy.bind fun id =>
    (lookup Proxy.id db.proxies id).filter fun x => !x.deleted && seesProxy db user x

/-- Who has a profile open. -/
def lockInfo (profile : ℕ) : Option LockInfo :=
  ((db.team.lock profile).filter fun l => db.team.now < l.expires).map fun l =>
    ⟨l.user, db.email l.user, l.expires⟩

/-- With how many a profile is shared, as far as the caller sees. -/
def shareCount (user : ℕ) (p : TeamTables.Profile) : ℕ :=
  db.team.profileGrants.countP fun g => g.profile = p.id && db.team.live g.expires &&
    (db.team.inOrg user p.org || g.user = user)

/-- A row of `profiles_in`. -/
def summary (user : ℕ) (perms : PermSet) (reveal : Bool) (p : TeamTables.Profile) :
    ProfileSummary ρ where
  id := p.id
  project := p.project
  projectName := db.projectName p.project
  name := (db.columns p.id).name
  tags := (db.columns p.id).tags
  persona := (db.columns p.id).persona
  proxy := (proxyOf db user p.id).map fun x =>
    ⟨x.id, x.name, x.kind, shown P.sha256 reveal (address x.host x.port), x.country, none, none, 0,
      none, none⟩
  lock := lockInfo db p.id
  permissions := Perm.all.filter perms.has
  sharedWith := shareCount db user p
  rest := (db.columns p.id).rest

/-- The profiles of a project, in order. -/
def profileRows (user project : ℕ) : List TeamTables.Profile :=
  (db.team.profiles.filter fun p => p.project = project && !p.deleted &&
    db.team.sees user p.id).mergeSort fun p q =>
      P.collate (db.columns p.id).name (db.columns q.id).name

/-- `profiles_in`. -/
def profilesIn (user project : ℕ) : Except Refusal (List (ProfileSummary ρ)) :=
  let perms := db.team.permissionsFor user project
  if perms = PermSet.none then .error .notFound
  else if perms.has .view then
    .ok ((profileRows P db user project).map (summary P db user perms (perms.has .revealSecrets)))
  else .error (.denied .view)

/-- The projects that the caller may work in, in order. -/
def projectRows : List Project :=
  (db.team.projects.filter fun p => !p.deleted && db.team.inOrg c.user p.org &&
    (hasImplicitProjectAccess c.role ||
      (db.team.projectGrant p.id c.user).any fun g => db.team.live g.expires)).mergeSort fun p q =>
        P.collate (db.projectName p.id) (db.projectName q.id)

/-- `list_all_profiles`. -/
def listAllProfiles : Except Refusal (List (ProfileSummary ρ)) :=
  ((projectRows P db c).mapM fun p => profilesIn P db c.user p.id).map fun lists =>
    lists.flatten.mergeSort fun a b => P.lowercase a.name ≤ P.lowercase b.name

/-- `holds_somewhere`. -/
def holdsSomewhere (perm : Perm) : Bool :=
  hasImplicitProjectAccess c.role || db.team.projectGrants.any fun g =>
    g.user = c.user && db.team.live g.expires &&
      ((db.team.project g.project).any fun p => p.org = c.org && db.team.inOrg c.user p.org) &&
      (effective c.role (some g.permissions)).has perm

/-- `proxy_change` allows it. -/
def mayChange (mine mayAdd : Bool) : Bool := hasImplicitProjectAccess c.role || mine && mayAdd

/-- The organisation's proxies, in order. -/
def proxyRows : List Proxy :=
  (db.proxies.filter fun x => x.org = c.org && !x.deleted && seesProxy db c.user x).mergeSort
    fun x y => P.collate x.name y.name

/-- A row of `list_proxies`. -/
def proxySummary (reveal : Bool) (x : Proxy) : ProxySummary where
  id := x.id
  name := x.name
  kind := x.kind
  display := if reveal then address x.host x.port else address (maskHost P.sha256 x.host) x.port
  country := x.country
  detectedKind := x.detected
  lastChecked := x.checked
  sharedWithProfiles := db.team.profiles.countP fun p =>
    (db.columns p.id).proxy = some x.id && !p.deleted && db.team.sees c.user p.id
  addedBy := x.createdBy.map db.email
  mayChange := some (mayChange c (x.createdBy = some c.user)
    (!hasImplicitProjectAccess c.role && holdsSomewhere db c .editProxy))

/-- `list_proxies`. -/
def listProxies : List ProxySummary :=
  (proxyRows P db c).map (proxySummary P db c ((implicitPermissions c).has .revealSecrets))

/-- What somebody was given and still holds, with the profiles. -/
def shares (user : ℕ) : List (ProfileGrant × TeamTables.Profile) :=
  db.team.profileGrants.filterMap fun g =>
    if g.user = user && db.team.live g.expires then
      ((db.team.liveProfile g.profile).filter fun p => db.team.sees user p.id).map fun p => (g, p)
    else none

/-- A row of `shared_with_me`. -/
def sharedProfile (user : ℕ) (row : ProfileGrant × TeamTables.Profile) : SharedProfile where
  id := row.2.id
  name := (db.columns row.2.id).name
  persona := (db.columns row.2.id).persona
  tags := (db.columns row.2.id).tags
  sharedBy := db.email (db.shareColumns row.1.key).grantedBy
  permissions := row.1.permissions
  expires := row.1.expires
  wrappedKey := (db.shareColumns row.1.key).wrappedKey
  wrappedProxyKey := (db.shareColumns row.1.key).wrappedProxyKey
  proxyDisplay := (proxyOf db user row.2.id).map fun x => address x.host x.port

/-- `shared_with_me`. -/
def sharedWithMe (user : ℕ) : List SharedProfile :=
  ((shares db user).mergeSort fun r s =>
    P.collate (db.columns r.2.id).name (db.columns s.2.id).name).map (sharedProfile db user)

end Listings

end FuryBrowser.ProxyListings
