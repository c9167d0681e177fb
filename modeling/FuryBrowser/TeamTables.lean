import FuryBrowser.Permissions
import FuryBrowser.ProfileLocks

/-!
# The tables of teams

An organisation has members with a role, projects, and in them profiles. A member
is let into a project by a grant, which may follow one of the organisation's own
roles and carry domain lists, and a profile can be shared with one person of any
organisation by a grant of its own. Whoever opens a profile holds its lock.

What somebody may do is read from these tables at every request. Beneath it,
row-level security shows a connection the rows of its user's organisation, and
what was shared with that user.
-/

namespace FuryBrowser.TeamTables

open RowTable Permissions
open OrgKeys (Role)
open ProfileLocks (Lock)

/-- A row of `organizations`. -/
structure Org where
  id : ℕ
  /-- `ork_generation`. -/
  generation : ℕ
  deriving DecidableEq, Repr

/-- A row of `org_members`. Nobody is in two organisations. -/
structure Member where
  user : ℕ
  org : ℕ
  role : Role
  deriving DecidableEq, Repr

/-- A row of `sessions`. -/
structure Session where
  /-- `token_hash`. -/
  token : ℕ
  user : ℕ
  /-- `expires_at`, in seconds. -/
  expires : ℕ
  deriving DecidableEq, Repr

/-- A row of `projects`. -/
structure Project where
  id : ℕ
  org : ℕ
  /-- `deleted_at` is set. -/
  deleted : Bool
  deriving DecidableEq, Repr

/-- A row of `profiles`. -/
structure Profile where
  id : ℕ
  org : ℕ
  project : ℕ
  /-- `deleted_at` is set. -/
  deleted : Bool
  deriving DecidableEq, Repr

/-- A row of `project_grants`. -/
structure ProjectGrant where
  project : ℕ
  user : ℕ
  permissions : PermSet
  /-- `expires_at`, if it does. -/
  expires : Option ℕ
  domainLists : List ℕ
  /-- `access_role`, which it follows. -/
  accessRole : Option ℕ
  deriving DecidableEq, Repr

/-- A row of `profile_grants`. Its `wrapped_key` is never null: only
`share_profile` writes such a row. -/
structure ProfileGrant where
  profile : ℕ
  /-- Whom it is shared with. -/
  user : ℕ
  permissions : PermSet
  /-- `expires_at`, if it does. -/
  expires : Option ℕ
  /-- The generation of the organisation key that the sealed profile key is from. -/
  generation : ℕ
  deriving DecidableEq, Repr

/-- A row of `org_access_roles`. -/
structure AccessRole where
  id : ℕ
  org : ℕ
  permissions : PermSet
  deriving DecidableEq, Repr

/-- How a domain list is read. -/
inductive ListKind where
  /-- The hosts it names are refused. -/
  | blocked
  /-- `@allow-only`: all others are. -/
  | allowOnly
  /-- `@local`: it names hosts on the local network and refuses none. -/
  | onLocal
  deriving DecidableEq, Repr

/-- A row of `org_domain_lists`, its body parsed. -/
structure DomainList where
  id : ℕ
  org : ℕ
  kind : ListKind
  /-- The names, each as its labels. -/
  domains : List (List String)
  deriving DecidableEq, Repr

/-- The database. -/
structure Db where
  /-- `now()`, in seconds. -/
  now : ℕ
  /-- How many rows `users` has; a user is a number below it. -/
  users : ℕ
  /-- `organizations`. -/
  orgs : List Org
  /-- `org_members`. -/
  members : List Member
  sessions : List Session
  projects : List Project
  profiles : List Profile
  projectGrants : List ProjectGrant
  profileGrants : List ProfileGrant
  /-- `org_access_roles`. -/
  accessRoles : List AccessRole
  /-- `org_domain_lists`. -/
  domainLists : List DomainList
  /-- `profile_locks`. -/
  locks : List Lock
  /-- The next id or token to be drawn. -/
  fresh : ℕ
  deriving DecidableEq, Repr

instance lawfulBEqPair : LawfulBEq (ℕ × ℕ) := inferInstance

/-- The primary key of `project_grants`. -/
def ProjectGrant.key (g : ProjectGrant) : ℕ × ℕ := (g.project, g.user)

/-- The primary key of `profile_grants`. -/
def ProfileGrant.key (g : ProfileGrant) : ℕ × ℕ := (g.profile, g.user)

/-- `expires_at IS NULL OR expires_at > now()`. -/
def Db.live (db : Db) (expires : Option ℕ) : Bool := expires.all fun t => db.now < t

namespace Db

variable (db : Db)

/-- A project that is not deleted. -/
def project (id : ℕ) : Option Project :=
  (lookup Project.id db.projects id).filter fun p => !p.deleted

/-- A profile, deleted or not. -/
def profile (id : ℕ) : Option Profile := lookup Profile.id db.profiles id

/-- A profile that is not in the trash. -/
def liveProfile (id : ℕ) : Option Profile := (db.profile id).filter fun p => !p.deleted

/-- Somebody's row in an organisation. -/
def member (user org : ℕ) : Option Member :=
  (lookup Member.user db.members user).filter fun m => m.org = org

/-- `user_in_org`. -/
def inOrg (user org : ℕ) : Bool := (db.member user org).isSome

/-- Somebody's grant on a project. -/
def projectGrant (project user : ℕ) : Option ProjectGrant :=
  lookup ProjectGrant.key db.projectGrants (project, user)

/-- Somebody's grant on a profile. -/
def profileGrant (profile user : ℕ) : Option ProfileGrant :=
  lookup ProfileGrant.key db.profileGrants (profile, user)

/-- The lock of a profile. -/
def lock (profile : ℕ) : Option Lock := lookup Lock.profile db.locks profile

/-- `user_holds_share`. -/
def holdsShare (user profile : ℕ) : Bool :=
  (db.profileGrant profile user).any fun g => db.live g.expires

/-- The policy of `profiles`, of their bundles and of their locks. -/
def sees (user profile : ℕ) : Bool :=
  (db.profile profile).any fun p => db.inOrg user p.org || db.holdsShare user p.id

/-- `permissions_for`. -/
def permissionsFor (user project : ℕ) : PermSet :=
  match db.project project with
  | none => PermSet.none
  | some p =>
    match db.member user p.org with
    | none => PermSet.none
    | some m =>
      effective m.role (((db.projectGrant project user).filter fun g => db.live g.expires).map
        ProjectGrant.permissions)

/-- The direct grant that `permissions_for_profile` adds. -/
def direct (user profile : ℕ) : PermSet :=
  match (db.profileGrant profile user).filter fun g => db.live g.expires with
  | none => PermSet.none
  | some g => g.permissions

/-- `permissions_for_profile`. -/
def permissionsForProfile (user profile : ℕ) : PermSet :=
  match db.liveProfile profile with
  | none => PermSet.none
  | some p => db.permissionsFor user p.project ||| db.direct user profile

/-- A lock on the profile has not lapsed. -/
def isOpen (profile : ℕ) : Bool :=
  db.locks.any fun l => l.profile = profile && db.now < l.expires

/-- `domain_lists_for`. It asks neither whether the profile is deleted nor whether the
grant has expired. -/
def domainListsFor (user profile : ℕ) : List DomainList :=
  match (db.profile profile).bind fun p => db.projectGrant p.project user with
  | none => []
  | some g => db.domainLists.filter fun l => l.id ∈ g.domainLists

end Db

/-- A host as the browser asks for it. -/
inductive Host where
  | name (labels : List String)
  /-- An address or a single label, which no list can name. -/
  | other
  deriving DecidableEq, Repr

/-- `matches_or_parent`: the name itself or one of its parents is in the set. -/
def matchesOrParent (set : List (List String)) (labels : List String) : Bool :=
  labels.tails.any fun t => t ≠ [] && t ∈ set

/-- `blocks`, of the lists merged into one: the whitelists together are a whitelist,
and what the others name is taken from it. -/
def blocks (lists : List DomainList) (host : Host) : Bool :=
  let allowed := lists.filter fun l => l.kind = .allowOnly
  let blocked := lists.filter fun l => l.kind = .blocked
  match host with
  | .other => !allowed.isEmpty
  | .name labels =>
    (!allowed.isEmpty && !allowed.any fun l => matchesOrParent l.domains labels) ||
      blocked.any fun l => matchesOrParent l.domains labels

section Lemmas

variable {db : Db} {user project profile : ℕ}

/-- What a member has on a project stays within their role. -/
theorem permissionsFor_within {p : Project} {m : Member} (hp : db.project project = some p)
    (hm : db.member user p.org = some m) :
    (db.permissionsFor user project).Within (roleCeiling m.role) := by
  unfold Db.permissionsFor
  simp only [hp, hm]
  exact effective_within m.role _

/-- Whatever anybody has, it is among the ten capabilities. -/
theorem permissionsFor_within_all : (db.permissionsFor user project).Within PermSet.all := by
  unfold Db.permissionsFor
  split
  · exact none_within
  · split
    · exact none_within
    · exact (effective_within _ _).trans (roleCeiling_within_all _)

/-- On a project, only a member of its organisation has anything. -/
theorem member_of_permissionsFor {p : Perm} (h : (db.permissionsFor user project).has p = true) :
    ∃ pr m, db.project project = some pr ∧ db.member user pr.org = some m := by
  unfold Db.permissionsFor at h
  split at h
  · simp at h
  · rename_i pr hpr
    split at h
    · simp at h
    · rename_i m hm
      exact ⟨pr, m, hpr, hm⟩

theorem member_some {m : Member} {org : ℕ} (h : db.member user org = some m) :
    m ∈ db.members ∧ m.user = user ∧ m.org = org := by
  obtain ⟨hlookup, horg⟩ := Option.filter_eq_some_iff.mp h
  obtain ⟨hmem, huser⟩ := lookup_some hlookup
  exact ⟨hmem, huser, by simpa using horg⟩

end Lemmas

end FuryBrowser.TeamTables
