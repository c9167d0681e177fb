import FuryBrowser.TeamTables

/-!
# Requests of a team

What a request asks, what its handler checks before it writes, and what its
statements do to the tables. Checks and writes are separate: everything a check
has found can have changed when the write comes.
-/

namespace FuryBrowser.TeamRequests

open RowTable Permissions TeamTables
open OrgKeys (Role)
open ProfileLocks (Lock)

/-- The user of a session, as the request found them when it arrived. -/
structure Caller where
  user : ℕ
  org : ℕ
  role : Role
  deriving DecidableEq, Repr

/-- `OrgRole::Owner | OrgRole::Admin`. -/
def Caller.administers (c : Caller) : Bool := c.role = .owner || c.role = .admin

/-- The body of `rotate_org_key`, as far as access depends on it. -/
structure RotateRequest where
  /-- Who is removed, if anybody. -/
  remove : Option ℕ
  /-- The shares for which a new sealed key is supplied. -/
  shares : List (ℕ × ℕ)
  /-- The generation it was computed against. -/
  generation : ℕ
  deriving DecidableEq, Repr

/-- A request. -/
inductive Request where
  | acquireLock (profile : ℕ) (force : Bool)
  | heartbeat (profile token : ℕ)
  | releaseLock (profile token : ℕ)
  /-- `grant_access`. No lists keeps the lists there are, no role the role. -/
  | grantAccess (project user : ℕ) (permissions : List Perm) (expires : Option ℕ)
    (domainLists : Option (List ℕ)) (accessRole : Option (Option ℕ))
  | revokeAccess (project user : ℕ)
  /-- `share_profile`, with a key sealed from the organisation key of a generation. -/
  | shareProfile (profile user : ℕ) (permissions : List Perm) (expires : Option ℕ)
    (generation : ℕ)
  | revokeShare (profile user : ℕ)
  | setMemberRole (user : ℕ) (role : Role)
  | upsertAccessRole (id : Option ℕ) (permissions : List Perm)
  | deleteAccessRole (id : ℕ)
  | upsertDomainList (id : Option ℕ) (kind : ListKind) (domains : List (List String))
  | deleteDomainList (id : ℕ)
  | createProject
  | createProfile (project : ℕ)
  | deleteProfile (profile : ℕ)
  | deleteProject (project : ℕ)
  | moveProfiles (ids : List ℕ) (project : ℕ)
  | restoreProfile (profile : ℕ)
  | purgeProfile (profile : ℕ)
  | rotateOrgKey (req : RotateRequest)
  deriving DecidableEq, Repr

section Checks

variable (db : Db) (c : Caller)

/-- The checks of `acquire_lock`: launch, and for a takeover manage_access. -/
def acquireLock (profile : ℕ) (force : Bool) : Bool :=
  let perms := db.permissionsForProfile c.user profile
  perms.has .launch && (!force || perms.has .manageAccess)

/-- `require` with manage_access, for `grant_access` and `revoke_access`. -/
def mayGrant (project : ℕ) : Bool := (db.permissionsFor c.user project).has .manageAccess

/-- Which of the organisation's roles a grant is to follow: the one asked for, or the
one it follows already. -/
def grantLink (project user : ℕ) (accessRole : Option (Option ℕ)) : Option ℕ :=
  accessRole.getD ((db.projectGrant project user).bind ProjectGrant.accessRole)

/-- What is asked for: the boxes of the role, or else the ones that were ticked. -/
def requested (link : Option ℕ) (permissions : List Perm) : Option PermSet :=
  match link with
  | none => some (PermSet.fromIter permissions)
  | some id =>
    ((lookup AccessRole.id db.accessRoles id).filter fun r => r.org = c.org).map
      AccessRole.permissions

/-- Every list that is named exists in the organisation. -/
def listsKnown (ids : List ℕ) : Bool :=
  (db.domainLists.filter fun l => l.org = c.org && l.id ∈ ids).length = ids.length

/-- `grant_access` up to its write: the grant is capped by the role of whom it is for. -/
def grantAccess (project user : ℕ) (permissions : List Perm) (expires : Option ℕ)
    (domainLists : Option (List ℕ)) (accessRole : Option (Option ℕ)) : Option ProjectGrant :=
  if mayGrant db c project && domainLists.all (listsKnown db c) then
    (db.project project).bind fun p => (db.member user p.org).bind fun m =>
      let link := grantLink db project user accessRole
      (requested db c link permissions).map fun asked =>
        ⟨project, user, asked.intersect (roleCeiling m.role), expires, domainLists.getD [], link⟩
  else none

/-- `share_profile` up to its write: the share is capped by what the sharer holds. -/
def shareProfile (profile user : ℕ) (permissions : List Perm) (expires : Option ℕ)
    (generation : ℕ) : Option ProfileGrant :=
  let perms := db.permissionsForProfile c.user profile
  let capped := (PermSet.fromIter permissions).intersect perms
  if perms.has .manageAccess && user ≠ c.user && capped.has .view then
    some ⟨profile, user, capped, expires, generation⟩
  else none

/-- The checks of `set_member_role`. -/
def setMemberRole (user : ℕ) (role : Role) : Bool :=
  c.administers && role ≠ .owner && user ≠ c.user &&
    (db.member user c.org).any fun m =>
      m.role ≠ .owner && !(c.role = .admin && (role = .admin || m.role = .admin)) && m.role ≠ role

/-- `require` with delete_profile on the project of a profile, in the trash or not. -/
def mayDelete (profile : ℕ) : Bool :=
  (db.profile profile).any fun p => (db.permissionsFor c.user p.project).has .deleteProfile

/-- Something in the project is open. -/
def projectOpen (project : ℕ) : Bool :=
  db.profiles.any fun p => p.project = project && db.sees c.user p.id && db.isOpen p.id

/-- `may_remove`. -/
def mayRemove (target : ℕ) : Bool :=
  (db.member target c.org).any fun m => OrgKeys.mayRemove c.role m.role

/-- `relink`: what the grants that follow a role would hold under its boxes. -/
def relinked (roles : List AccessRole) (role user : Option ℕ) : List ((ℕ × ℕ) × PermSet) :=
  db.projectGrants.filterMap fun g =>
    if role.all (fun id => g.accessRole = some id) && user.all (fun id => g.user = id) then
      g.accessRole.bind fun link => (lookup AccessRole.id roles link).bind fun r =>
        (lookup Project.id db.projects g.project).bind fun p =>
          if db.inOrg c.user p.org then
            (db.member g.user p.org).map fun m =>
              (g.key, r.permissions.intersect (roleCeiling m.role))
          else none
    else none

end Checks

/-- What a rotation has written and not committed. -/
structure Pending where
  /-- Grants of the removed member that are deleted. -/
  grants : List (ℕ × ℕ)
  sessions : List ℕ
  /-- The profiles whose locks they held. -/
  locks : List ℕ
  /-- Shares that have a new key. -/
  resealed : List (ℕ × ℕ)
  deriving DecidableEq, Repr

/-- What a statement, or a transaction when it commits, does to the tables. -/
inductive Statement where
  /-- It reads, or writes nothing. -/
  | nothing
  | touchSession (token : ℕ)
  | putLock (profile user : ℕ)
  | extendLock (profile user token : ℕ)
  | releaseLock (profile token : ℕ)
  | dropLocks (user : ℕ) (profiles : List ℕ)
  | putProjectGrant (g : ProjectGrant)
  | dropProjectGrant (project user : ℕ)
  /-- Grants follow a changed role or a changed person. -/
  | setPermissions (writes : List ((ℕ × ℕ) × PermSet))
  /-- A role of the organisation, and the grants that follow it. -/
  | saveAccessRole (r : AccessRole) (writes : List ((ℕ × ℕ) × PermSet))
  /-- A role goes, and its grants keep what they have. -/
  | dropAccessRole (id : ℕ)
  | putProfileGrant (g : ProfileGrant)
  | dropProfileGrant (profile user : ℕ)
  | setRole (user org : ℕ) (role : Role)
  | saveDomainList (l : DomainList)
  | dropDomainList (id : ℕ)
  /-- Grants of the organisation forget it. -/
  | forgetDomainList (id org : ℕ)
  | insertProject (org : ℕ)
  | insertProfile (org project : ℕ)
  /-- A profile goes to the trash. -/
  | trash (profile : ℕ)
  /-- So does a project with these profiles. -/
  | trashProject (project : ℕ) (ids : List ℕ)
  /-- Profiles move to a project. -/
  | moveProfiles (ids : List ℕ) (project : ℕ)
  /-- A profile comes back from the trash. -/
  | restore (profile : ℕ)
  /-- A profile in the trash is gone for good, with its lock and its shares. -/
  | purge (profile : ℕ)
  | rotate (org : ℕ) (remove : Option ℕ) (pending : Pending) (generation : ℕ)
  deriving DecidableEq, Repr

/-- Permissions of grants, by their key. -/
def rewrite (writes : List ((ℕ × ℕ) × PermSet)) (grants : List ProjectGrant) :
    List ProjectGrant :=
  writes.foldl (fun gs write => updateWhere (fun g => g.key = write.1)
    (fun g => { g with permissions := write.2 }) gs) grants

/-- A new id. -/
def draw (db : Db) : Db := { db with fresh := db.fresh + 1 }

/-- A statement takes effect. -/
def execute (db : Db) : Statement → Db
  | .nothing => db
  | .touchSession token => { db with
      sessions := updateWhere (fun s => s.token = token)
        (fun s => { s with expires := db.now + 7 * 24 * 3600 }) db.sessions }
  | .putLock profile user => { draw db with
      locks := put Lock.profile ⟨profile, user, db.fresh, db.now + 90⟩ db.locks }
  | .extendLock profile user token => { db with
      locks := updateWhere (fun l => l.profile = profile && l.user = user && l.token = token)
        (fun l => { l with expires := db.now + 90 }) db.locks }
  | .releaseLock profile token => { db with
      locks := deleteWhere (fun l => l.profile = profile && l.token = token) db.locks }
  | .dropLocks user profiles => { db with
      locks := deleteWhere (fun l => l.user = user && l.profile ∈ profiles) db.locks }
  | .putProjectGrant g => { db with projectGrants := put ProjectGrant.key g db.projectGrants }
  | .dropProjectGrant project user => { db with
      projectGrants := deleteWhere (fun g => g.key = (project, user)) db.projectGrants }
  | .setPermissions writes => { db with projectGrants := rewrite writes db.projectGrants }
  | .saveAccessRole r writes => { draw db with
      accessRoles := put AccessRole.id r db.accessRoles
      projectGrants := rewrite writes db.projectGrants }
  | .dropAccessRole id => { db with
      accessRoles := deleteWhere (fun r => r.id = id) db.accessRoles
      projectGrants := updateWhere (fun g => g.accessRole = some id)
        (fun g => { g with accessRole := none }) db.projectGrants }
  | .putProfileGrant g => { db with profileGrants := put ProfileGrant.key g db.profileGrants }
  | .dropProfileGrant profile user => { db with
      profileGrants := deleteWhere (fun g => g.key = (profile, user)) db.profileGrants }
  | .setRole user org role => { db with
      members := updateWhere (fun m => m.user = user && m.org = org)
        (fun m => { m with role := role }) db.members }
  | .saveDomainList l => { draw db with domainLists := put DomainList.id l db.domainLists }
  | .dropDomainList id => { db with
      domainLists := deleteWhere (fun l => l.id = id) db.domainLists }
  | .forgetDomainList id org => { db with
      projectGrants := updateWhere
        (fun g => (lookup Project.id db.projects g.project).any fun p => p.org = org)
        (fun g => { g with domainLists := g.domainLists.filter (· ≠ id) }) db.projectGrants }
  | .insertProject org => { draw db with projects := ⟨db.fresh, org, false⟩ :: db.projects }
  | .insertProfile org project => { draw db with
      profiles := ⟨db.fresh, org, project, false⟩ :: db.profiles }
  | .trash profile => { db with
      profiles := updateWhere (fun p => p.id = profile) (fun p => { p with deleted := true })
        db.profiles }
  | .trashProject project ids => { db with
      profiles := updateWhere (fun p => p.id ∈ ids) (fun p => { p with deleted := true })
        db.profiles
      projects := updateWhere (fun p => p.id = project) (fun p => { p with deleted := true })
        db.projects }
  | .moveProfiles ids project => { db with
      profiles := updateWhere (fun p => p.id ∈ ids) (fun p => { p with project := project })
        db.profiles }
  | .restore profile => { db with
      profiles := updateWhere (fun p => p.id = profile) (fun p => { p with deleted := false })
        db.profiles }
  | .purge profile => { db with
      profiles := deleteWhere (fun p => p.id = profile) db.profiles
      locks := deleteWhere (fun l => l.profile = profile) db.locks
      profileGrants := deleteWhere (fun g => g.profile = profile) db.profileGrants }
  | .rotate org remove pending generation => { db with
      orgs := updateWhere (fun o => o.id = org) (fun o => { o with generation := generation })
        db.orgs
      members := deleteWhere (fun m => m.org = org && remove = some m.user) db.members
      projectGrants := deleteWhere (fun g => g.key ∈ pending.grants) db.projectGrants
      sessions := deleteWhere (fun s => s.token ∈ pending.sessions) db.sessions
      locks := deleteWhere (fun l => l.profile ∈ pending.locks) db.locks
      profileGrants := updateWhere (fun g => g.key ∈ pending.resealed)
        (fun g => { g with generation := generation }) db.profileGrants }

section Writes

variable (db : Db) (c : Caller)

/-- The upsert of `acquire_lock`: an expired lock is free, a live one yields to a
forced takeover. -/
def takeLock (profile : ℕ) (force : Bool) : Statement :=
  if db.sees c.user profile && (db.lock profile).all fun l => l.expires ≤ db.now || force then
    .putLock profile c.user
  else .nothing

/-- The `UPDATE` of `heartbeat`. -/
def beat (profile token : ℕ) : Statement :=
  if db.sees c.user profile then .extendLock profile c.user token else .nothing

/-- The `DELETE` of `release_lock`. -/
def release (profile token : ℕ) : Statement :=
  if db.sees c.user profile then .releaseLock profile token else .nothing

/-- The organisation of a project, deleted or not. -/
def orgOfProject (project : ℕ) : Option ℕ :=
  (lookup Project.id db.projects project).map Project.org

/-- The policy of `project_grants`. -/
def reachesProject (project : ℕ) : Bool := (orgOfProject db project).any fun org =>
  db.inOrg c.user org

/-- The upsert of `grant_access`; the role it follows must still be there. -/
def writeGrant (g : ProjectGrant) (domainLists : Option (List ℕ)) : Statement :=
  if reachesProject db c g.project && g.user < db.users &&
      g.accessRole.all fun id => (lookup AccessRole.id db.accessRoles id).isSome then
    .putProjectGrant { g with
      domainLists := domainLists.getD
        (((db.projectGrant g.project g.user).map ProjectGrant.domainLists).getD []) }
  else .nothing

/-- The first `DELETE` of `revoke_access`. -/
def revokeGrant (project user : ℕ) : Statement :=
  if reachesProject db c project then .dropProjectGrant project user else .nothing

/-- Its second: the locks the caller sees on profiles of the project. -/
def revokeLocks (project user : ℕ) : Statement :=
  .dropLocks user ((db.profiles.filter fun p => p.project = project && db.sees c.user p.id).map
    Profile.id)

/-- The policy of `profile_grants`. -/
def reachesGrant (profile user : ℕ) : Bool :=
  user = c.user || (db.profile profile).any fun p => db.inOrg c.user p.org

/-- The upsert of `share_profile`. -/
def writeShare (g : ProfileGrant) : Statement :=
  if reachesGrant db c g.profile g.user && g.user < db.users then .putProfileGrant g
  else .nothing

/-- The first `DELETE` of `revoke_share`. -/
def revokeShareGrant (profile user : ℕ) : Statement :=
  if reachesGrant db c profile user then .dropProfileGrant profile user else .nothing

/-- Its second. -/
def revokeShareLocks (profile user : ℕ) : Statement :=
  .dropLocks user (if db.sees c.user profile then [profile] else [])

end Writes

end FuryBrowser.TeamRequests
