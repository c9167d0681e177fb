import FuryBrowser.GuardedRuns
import FuryBrowser.TeamRequests

/-!
# Requests of a team, statement by statement

Any number of requests are in flight, each with a connection of its own. Between
two statements of one, any statement of another can come. What a handler knows of
the tables is what it carries from one statement to the next; a statement waits
where another transaction has written its row and not committed.

A request can be lost at any point: its client or its connection is gone, or it
fails. What it has committed stays.
-/

namespace FuryBrowser.TeamRuns

open GuardedRuns RowTable Permissions TeamTables TeamRequests
open OrgKeys (Role)
open ProfileLocks (Lock)

/-- The statements of a rotation on these tables. -/
inductive Phase where
  /-- It locks the organisation and deletes the member. -/
  | takesOrg
  /-- It deletes the member's grants. -/
  | dropsGrants
  | dropsSessions
  | dropsLocks
  /-- It writes the new keys of the shares. -/
  | reseals
  deriving DecidableEq, Repr

/-- The order of `rotate_org_key`. -/
def phases : List Phase := [.takesOrg, .dropsGrants, .dropsSessions, .dropsLocks, .reseals]

/-- What a handler carries to its next statement. -/
inductive Stage where
  /-- The session is found, and about to slide. -/
  | arrived (token : ℕ) (req : Request)
  /-- The caller is known, and about to be checked. -/
  | begun (req : Request)
  /-- `acquire_lock`, before its upsert. -/
  | locking (profile : ℕ) (force : Bool)
  /-- `heartbeat`. -/
  | beating (profile token : ℕ)
  /-- `release_lock`. -/
  | releasing (profile token : ℕ)
  /-- `grant_access`, before its upsert. -/
  | granting (g : ProjectGrant) (domainLists : Option (List ℕ))
  /-- `revoke_access`, before it deletes the grant. -/
  | revoking (project user : ℕ)
  /-- Before it deletes the locks. -/
  | revokingLocks (project user : ℕ)
  /-- `share_profile`, before its upsert. -/
  | sharing (g : ProfileGrant)
  /-- `revoke_share`, before it deletes the grant. -/
  | unsharing (profile user : ℕ)
  /-- Before it deletes the lock. -/
  | unsharingLocks (profile user : ℕ)
  /-- `set_member_role`, before its update. -/
  | settingRole (user : ℕ) (role : Role)
  /-- Before `relink` reads the grants. -/
  | relinking (user : ℕ)
  /-- Before `relink` writes the next. -/
  | relinked (writes : List ((ℕ × ℕ) × PermSet))
  /-- `upsert_access_role`, before its upsert. -/
  | savingRole (id : Option ℕ) (permissions : PermSet)
  /-- Before it commits the role and the grants that follow it. -/
  | savedRole (r : AccessRole) (writes : List ((ℕ × ℕ) × PermSet))
  /-- `delete_access_role`. -/
  | deletingRole (id : ℕ)
  /-- `upsert_domain_list`. -/
  | savingList (id : Option ℕ) (kind : ListKind) (domains : List (List String))
  /-- `delete_domain_list`. -/
  | deletingList (id : ℕ)
  /-- Before grants forget the list. -/
  | forgettingList (id : ℕ)
  /-- `create_project`. -/
  | creatingProject
  /-- `create_profile`, before its insert. -/
  | creatingProfile (project : ℕ)
  /-- `delete_profile`, before its update. -/
  | trashing (profile : ℕ)
  /-- `delete_project` has found nothing open. -/
  | projectChecked (project : ℕ)
  /-- It has marked these profiles, and is about to commit. -/
  | projectMarked (project : ℕ) (ids : List ℕ)
  /-- `move_profiles`, before the next profile; the last ones are written. -/
  | moving (todo : List ℕ) (project : ℕ) (written : List ℕ)
  /-- It has checked a profile. -/
  | moveChecked (profile : ℕ) (todo : List ℕ) (project : ℕ) (written : List ℕ)
  /-- `restore_profile`, before its update. -/
  | restoring (profile : ℕ)
  /-- `purge_profile`, before its delete. -/
  | purging (profile : ℕ)
  /-- `rotate_org_key`. -/
  | rotating (req : RotateRequest) (todo : List Phase) (pending : Pending)
  deriving DecidableEq, Repr

/-- A request in flight. -/
structure Flight where
  id : ℕ
  caller : Caller
  stage : Stage
  deriving DecidableEq, Repr

/-- The database and the requests in flight. -/
structure World where
  db : Db
  flights : List Flight
  nextId : ℕ
  deriving DecidableEq, Repr

/-- A server with nothing stored. -/
def empty : World := ⟨⟨0, 0, [], [], [], [], [], [], [], [], [], [], 0⟩, [], 0⟩

/-- What a rotation in flight has written, and for whom. -/
def Stage.rotation : Stage → Option (RotateRequest × List Phase × Pending)
  | .rotating req todo pending => some (req, todo, pending)
  | _ => none

/-- The rows of `profiles` that a transaction in flight has written. -/
def Stage.writtenProfiles : Stage → List ℕ
  | .projectMarked _ ids => ids
  | .moving _ _ written => written
  | .moveChecked _ _ _ written => written
  | _ => []

namespace World

variable (w : World)

/-- A rotation in flight satisfies this. -/
def rotationAny (p : Caller → RotateRequest → List Phase → Pending → Bool) : Bool :=
  w.flights.any fun f => f.stage.rotation.any fun r => p f.caller r.1 r.2.1 r.2.2

/-- A session is being deleted. -/
def sessionHeld (token : ℕ) : Bool := w.rotationAny fun _ _ _ p => token ∈ p.sessions

/-- A lock is being deleted. -/
def lockHeld (profile : ℕ) : Bool := w.rotationAny fun _ _ _ p => profile ∈ p.locks

/-- A grant on a project is being deleted. -/
def grantHeld (project user : ℕ) : Bool := w.rotationAny fun _ _ _ p => (project, user) ∈ p.grants

/-- A share is being sealed again. -/
def shareHeld (profile user : ℕ) : Bool :=
  w.rotationAny fun _ _ _ p => (profile, user) ∈ p.resealed

/-- A member is being removed. -/
def memberHeld (user org : ℕ) : Bool :=
  w.rotationAny fun c req todo _ => c.org = org && req.remove = some user && .takesOrg ∉ todo

/-- A rotation has locked the organisation. -/
def orgHeld (org : ℕ) : Bool := w.rotationAny fun c _ todo _ => c.org = org && .takesOrg ∉ todo

/-- Another transaction has written the profile's row. -/
def profileHeld (id profile : ℕ) : Bool :=
  w.flights.any fun f => f.id ≠ id && profile ∈ f.stage.writtenProfiles

/-- `ork_generation`. -/
def generation (org : ℕ) : Option ℕ := (lookup Org.id w.db.orgs org).map Org.generation

end World

/-- The checks of a handler, up to its first write; none when it refuses. -/
def checked (db : Db) (c : Caller) : Request → Option Stage
  | .acquireLock profile force =>
    if acquireLock db c profile force then some (.locking profile force) else none
  | .heartbeat profile token => some (.beating profile token)
  | .releaseLock profile token => some (.releasing profile token)
  | .grantAccess project user permissions expires domainLists accessRole =>
    (grantAccess db c project user permissions expires domainLists accessRole).map
      fun g => .granting g domainLists
  | .revokeAccess project user => if mayGrant db c project then some (.revoking project user) else none
  | .shareProfile profile user permissions expires generation =>
    (shareProfile db c profile user permissions expires generation).map .sharing
  | .revokeShare profile user =>
    if (db.permissionsForProfile c.user profile).has .manageAccess then
      some (.unsharing profile user)
    else none
  | .setMemberRole user role =>
    if setMemberRole db c user role then some (.settingRole user role) else none
  | .upsertAccessRole id permissions =>
    if c.administers then
      some (.savingRole id ((PermSet.fromIter permissions).insert .view))
    else none
  | .deleteAccessRole id => if c.administers then some (.deletingRole id) else none
  | .upsertDomainList id kind domains =>
    if c.administers && domains ≠ [] then some (.savingList id kind domains) else none
  | .deleteDomainList id => if c.administers then some (.deletingList id) else none
  | .createProject => if c.administers then some .creatingProject else none
  | .createProfile project =>
    if (db.permissionsFor c.user project).has .createProfile then some (.creatingProfile project)
    else none
  | .deleteProfile profile =>
    if (db.permissionsForProfile c.user profile).has .deleteProfile && !db.isOpen profile then
      some (.trashing profile)
    else none
  | .deleteProject project =>
    if c.administers && !projectOpen db c project then some (.projectChecked project) else none
  | .moveProfiles ids project =>
    if ids ≠ [] && (db.permissionsFor c.user project).has .createProfile then
      some (.moving ids project [])
    else none
  | .restoreProfile profile => if mayDelete db c profile then some (.restoring profile) else none
  | .purgeProfile profile => if mayDelete db c profile then some (.purging profile) else none
  | .rotateOrgKey req =>
    if c.administers && req.remove ≠ some c.user then
      some (.rotating req phases ⟨[], [], [], []⟩)
    else none

/-- The next profile of `move_profiles`; none when it refuses. -/
def moveNext (db : Db) (c : Caller) (profile : ℕ) (todo : List ℕ) (project : ℕ)
    (written : List ℕ) : Option Stage :=
  (db.liveProfile profile).bind fun p =>
    if p.org ≠ c.org || !db.sees c.user profile then none
    else if p.project = project || profile ∈ written then some (.moving todo project written)
    else if db.isOpen profile then none
    else if (db.permissionsFor c.user p.project).has .deleteProfile then
      some (.moveChecked profile todo project written)
    else none

/-- The next statement of a rotation; none when it refuses. -/
def rotateNext (w : World) (c : Caller) (req : RotateRequest) (pending : Pending) :
    Phase → Option Pending
  | .takesOrg =>
    if w.generation c.org = some req.generation && req.remove.all (mayRemove w.db c) then
      some pending
    else none
  | .dropsGrants => some { pending with
      grants := (w.db.projectGrants.filter fun g =>
        req.remove = some g.user && reachesProject w.db c g.project).map ProjectGrant.key }
  | .dropsSessions => some { pending with
      sessions := (w.db.sessions.filter fun s => req.remove = some s.user).map Session.token }
  | .dropsLocks => some { pending with
      locks := (w.db.locks.filter fun l =>
        req.remove = some l.user && w.db.sees c.user l.profile).map Lock.profile }
  | .reseals =>
    let ofOrg := w.db.profileGrants.filter fun g =>
      (w.db.profile g.profile).any fun p => p.org = c.org && w.db.inOrg c.user p.org
    if ofOrg.all fun g => g.key ∈ req.shares then
      some { pending with resealed := ofOrg.map ProfileGrant.key }
    else none

/-- One statement of a request: what it does, and what the handler carries on, if it
goes on. None while it waits. -/
def next (w : World) (f : Flight) : Option (Statement × Option Stage) :=
  let db := w.db
  let c := f.caller
  match f.stage with
  | .arrived token req =>
    if w.sessionHeld token then none else some (.touchSession token, some (.begun req))
  | .begun req => some (.nothing, checked db c req)
  | .locking profile force =>
    if w.lockHeld profile then none else some (takeLock db c profile force, none)
  | .beating profile token =>
    if w.lockHeld profile then none else some (beat db c profile token, none)
  | .releasing profile token =>
    if w.lockHeld profile then none else some (release db c profile token, none)
  | .granting g domainLists =>
    if w.grantHeld g.project g.user then none else some (writeGrant db c g domainLists, none)
  | .revoking project user =>
    if w.grantHeld project user then none
    else some (revokeGrant db c project user, some (.revokingLocks project user))
  | .revokingLocks project user => some (revokeLocks db c project user, none)
  | .sharing g =>
    if w.shareHeld g.profile g.user then none else some (writeShare db c g, none)
  | .unsharing profile user =>
    if w.shareHeld profile user then none
    else some (revokeShareGrant db c profile user, some (.unsharingLocks profile user))
  | .unsharingLocks profile user => some (revokeShareLocks db c profile user, none)
  | .settingRole user role =>
    if w.memberHeld user c.org then none
    else some (.setRole user c.org role, some (.relinking user))
  | .relinking user =>
    some (.nothing, some (.relinked (relinked db c db.accessRoles none (some user))))
  | .relinked [] => some (.nothing, none)
  | .relinked (write :: writes) =>
    if w.grantHeld write.1.1 write.1.2 then none
    else some (.setPermissions [write], some (.relinked writes))
  | .savingRole id permissions =>
    let r : AccessRole := ⟨id.getD db.fresh, c.org, permissions⟩
    if db.inOrg c.user c.org &&
        (lookup AccessRole.id db.accessRoles r.id).all fun old => old.org = c.org then
      some (.nothing, some (.savedRole r
        (relinked db c (put AccessRole.id r db.accessRoles) (some r.id) none)))
    else some (.nothing, none)
  | .savedRole r writes => some (.saveAccessRole r writes, none)
  | .deletingRole id =>
    if db.inOrg c.user c.org &&
        (lookup AccessRole.id db.accessRoles id).any fun r => r.org = c.org then
      some (.dropAccessRole id, none)
    else some (.nothing, none)
  | .savingList id kind domains =>
    let l : DomainList := ⟨id.getD db.fresh, c.org, kind, domains⟩
    if db.inOrg c.user c.org &&
        (lookup DomainList.id db.domainLists l.id).all fun old => old.org = c.org then
      some (.saveDomainList l, none)
    else some (.nothing, none)
  | .deletingList id =>
    if db.inOrg c.user c.org &&
        (lookup DomainList.id db.domainLists id).any fun l => l.org = c.org then
      some (.dropDomainList id, some (.forgettingList id))
    else some (.nothing, none)
  | .forgettingList id =>
    some (if db.inOrg c.user c.org then .forgetDomainList id c.org else .nothing, none)
  | .creatingProject =>
    some (if db.inOrg c.user c.org then .insertProject c.org else .nothing, none)
  | .creatingProfile project =>
    some (if db.inOrg c.user c.org && (orgOfProject db project).isSome then
      .insertProfile c.org project else .nothing, none)
  | .trashing profile =>
    if w.profileHeld f.id profile then none
    else some (if db.sees c.user profile && (db.liveProfile profile).isSome then .trash profile
      else .nothing, none)
  | .projectChecked project =>
    let marked := (db.profiles.filter fun p =>
      p.project = project && !p.deleted && db.sees c.user p.id).map Profile.id
    if marked.any (w.profileHeld f.id) then none
    else some (.nothing, some (.projectMarked project marked))
  | .projectMarked project ids =>
    some (if (db.project project).any fun p => p.org = c.org && db.inOrg c.user p.org then
      .trashProject project ids else .nothing, none)
  | .moving [] project written => some (.moveProfiles written project, none)
  | .moving (profile :: todo) project written =>
    some (.nothing, moveNext db c profile todo project written)
  | .moveChecked profile todo project written =>
    if w.profileHeld f.id profile then none
    else some (.nothing, some (.moving todo project (profile :: written)))
  | .restoring profile =>
    if w.profileHeld f.id profile then none
    else some (if db.sees c.user profile then .restore profile else .nothing, none)
  | .purging profile =>
    if w.profileHeld f.id profile || w.lockHeld profile then none
    else some (if db.sees c.user profile && (db.profile profile).any Profile.deleted then
      .purge profile else .nothing, none)
  | .rotating req [] pending => some (.rotate c.org req.remove pending (req.generation + 1), none)
  | .rotating req (phase :: todo) pending =>
    if phase = .takesOrg && w.orgHeld c.org then none
    else some (.nothing, (rotateNext w c req pending phase).map fun p => .rotating req todo p)

/-- What can happen next. -/
inductive Label where
  /-- `signup`, or an invitation that creates an organisation: it and its first
  member. -/
  | found (role : Role)
  /-- `complete_enrollment` in an organisation that is there. -/
  | enroll (org : ℕ) (role : Role)
  /-- `login` and what it leads to: a new session. -/
  | signIn (user : ℕ)
  | signOut (token : ℕ)
  /-- A request arrives with the token of a session. -/
  | arrives (token : ℕ) (req : Request)
  /-- The next statement of a request runs. -/
  | runs (id : ℕ)
  | lost (id : ℕ)
  | tick (seconds : ℕ)
  deriving DecidableEq, Repr

/-- A new session of a user. -/
def newSession (db : Db) (user : ℕ) : Db :=
  { draw db with sessions := ⟨db.fresh, user, db.now + 7 * 24 * 3600⟩ :: db.sessions }

/-- A new user with a seat in an organisation, signed in. -/
def join (db : Db) (org : ℕ) (role : Role) : Db :=
  newSession { db with
    users := db.users + 1
    members := ⟨db.users, org, role⟩ :: db.members } db.users

/-- A new organisation and its first member. -/
def found (db : Db) (role : Role) : Db :=
  join { draw db with orgs := ⟨db.fresh, 1⟩ :: db.orgs } db.fresh role

/-- The user of a session, as `Caller::from_request_parts` finds them. -/
def callerOf (db : Db) (token : ℕ) : Option Caller :=
  ((lookup Session.token db.sessions token).filter fun s => db.now < s.expires).bind fun s =>
    (lookup Member.user db.members s.user).map fun m => ⟨m.user, m.org, m.role⟩

/-- A request arrives. -/
def arrives (w : World) (token : ℕ) (req : Request) : Option World :=
  (callerOf w.db token).map fun c => { w with
    flights := ⟨w.nextId, c, .arrived token req⟩ :: w.flights
    nextId := w.nextId + 1 }

/-- A handler goes on with a stage, or is done. -/
def World.goOn (w : World) (id : ℕ) : Option Stage → List Flight
  | none => deleteWhere (fun f => f.id = id) w.flights
  | some stage => updateWhere (fun f => f.id = id) (fun f => { f with stage := stage }) w.flights

/-- The next statement of a request. -/
def runs (w : World) (id : ℕ) : Option World :=
  (lookup Flight.id w.flights id).bind fun f => (next w f).map fun r =>
    { w with db := execute w.db r.1, flights := w.goOn id r.2 }

/-- One step. -/
def step (w : World) : Label → Option World
  | .found role => some { w with db := found w.db role }
  | .enroll org role =>
    if (w.generation org).isNone || w.orgHeld org || role = .owner then none
    else some { w with db := join w.db org role }
  | .signIn user => if user < w.db.users then some { w with db := newSession w.db user } else none
  | .signOut token => some { w with db := { w.db with
      sessions := deleteWhere (fun s => s.token = token) w.db.sessions } }
  | .arrives token req => arrives w token req
  | .runs id => runs w id
  | .lost id => some { w with flights := deleteWhere (fun f => f.id = id) w.flights }
  | .tick seconds => some { w with db := { w.db with now := w.db.now + seconds } }

/-- The server has just been set up. -/
def init (w : World) : Prop := w = empty

/-- The server after these steps. -/
def after (labels : List Label) : World := (run step empty labels).getD empty

/-- A request with all its statements. -/
def whole (id token : ℕ) (req : Request) (statements : ℕ) : List Label :=
  .arrives token req :: List.replicate statements (.runs id)

/-- An organisation 0 with its owner 0, a manager 1 and a plain member 2, signed in
with the tokens 1, 2 and 3, and in its project 4 the profile 5. -/
def team : List Label :=
  [.found .owner, .enroll 0 .manager, .enroll 0 .member] ++ whole 0 1 .createProject 3 ++
    whole 1 1 (.createProfile 4) 3

end FuryBrowser.TeamRuns
