import Mathlib.Data.List.Sort
import FuryBrowser.Machines
import FuryBrowser.TeamRequests

/-!
# Requests about profiles

A profile is a row with a machine from its organisation's catalogue, what it pins about
that machine, and the proxy it goes out through. A request is a handler that runs
statement by statement; what it has found it carries to its next statement, and what it
found can have changed by then.

What somebody may do is asked of the permissions in each statement that asks it, and
whatever they answer is part of the step.
-/

namespace FuryBrowser.ProfileRequests

open RowTable Permissions Machines
open TeamTables (Project)
open TeamRequests (Caller)
open AgentDisk (trim)

/-- How the server is set up. -/
structure Config where
  shared : Shared
  /-- `max_profiles_per_org`. -/
  maxProfiles : Option ℤ

/-- A row of `proxies`. -/
structure Proxy where
  id : ℕ
  org : ℕ
  /-- Its credentials are stored. -/
  stored : Bool
  /-- `deleted_at` is set. -/
  deleted : Bool
  deriving DecidableEq, Repr

/-- A row of `org_personas`. -/
structure OrgPersona where
  org : ℕ
  id : String
  persona : Persona
  createdBy : Option ℕ
  deriving DecidableEq, Repr

/-- What a new row of `profiles` says. -/
structure NewProfile where
  project : ℕ
  personaId : String
  overrides : MachineOverrides
  /-- `proxy_id`. -/
  proxy : Option ℕ
  deriving DecidableEq, Repr

/-- A row of `profiles`. -/
structure Profile extends NewProfile where
  id : ℕ
  org : ℕ
  /-- `deleted_at` is set. -/
  deleted : Bool
  deriving DecidableEq, Repr

/-- The tables. -/
structure Db where
  projects : List Project
  /-- `org_personas`. -/
  personas : List OrgPersona
  proxies : List Proxy
  profiles : List Profile
  /-- The next id to be drawn. -/
  fresh : ℕ
  deriving DecidableEq, Repr

/-- The primary key of `org_personas`. -/
def OrgPersona.key (r : OrgPersona) : ℕ × String := (r.org, r.id)

/-- An organisation's machine goes after what is there, unless its id is taken. -/
def addOwn (catalogue : List Persona) (r : OrgPersona) : List Persona :=
  if r.persona.id = r.id && !catalogue.any fun p => p.id = r.id then catalogue ++ [r.persona]
  else catalogue

/-- What the permissions answer a statement. -/
structure Access where
  /-- What the caller's role and grant come to on a project of their organisation. -/
  granted : PermSet
  /-- What is shared with them of the profile. -/
  shared : PermSet
  /-- Something concerned is open. -/
  isOpen : Bool
  deriving DecidableEq, Repr

namespace Db

variable (db : Db)

/-- A project that is not deleted. -/
def project (id : ℕ) : Option Project :=
  (lookup Project.id db.projects id).filter fun p => !p.deleted

/-- A profile, deleted or not. -/
def profile (id : ℕ) : Option Profile := lookup Profile.id db.profiles id

/-- The profiles of an organisation that are not in the trash. -/
def live (org : ℕ) : List Profile := db.profiles.filter fun p => p.org = org && !p.deleted

/-- `permissions_for`: nothing outside of the caller's organisation. -/
def permissionsFor (c : Caller) (project : ℕ) (a : Access) : PermSet :=
  if (db.project project).any fun p => p.org = c.org then a.granted else PermSet.none

/-- `permissions_for_profile`. -/
def permissionsForProfile (c : Caller) (profile : ℕ) (a : Access) : PermSet :=
  match (db.profile profile).filter fun p => !p.deleted with
  | none => PermSet.none
  | some p => db.permissionsFor c p.project a ||| a.shared

/-- The rows of `org_catalogue`, by their id. -/
def orgPersonas (org : ℕ) : List OrgPersona :=
  (db.personas.filter fun r => r.org = org).insertionSort fun r r' => r.id ≤ r'.id

/-- `org_catalogue`: the built-in machines, then the organisation's own. -/
def orgCatalogue (s : Shared) (org : ℕ) : List Persona :=
  (db.orgPersonas org).foldl addOwn s.builtIn

/-- A machine of the organisation's catalogue has this id, and `check_overrides` passes. -/
def stands (s : Shared) (org : ℕ) (personaId : String) (overrides : MachineOverrides) : Bool :=
  (find (db.orgCatalogue s org) personaId).any fun p =>
    (overrides.apply p s (db.orgCatalogue s org)).isSome

/-- A proxy of the organisation with stored credentials. -/
def usable (org proxy : ℕ) : Bool :=
  (lookup Proxy.id db.proxies proxy).any fun x => x.org = org && !x.deleted && x.stored

/-- `ensure_room_for_profiles`. -/
def hasRoom (conf : Config) (org wanted : ℕ) : Bool :=
  conf.maxProfiles.all fun max => ((db.live org).length : ℤ) + wanted ≤ max

end Db

/-- A request. -/
inductive Request where
  | createProfile (row : NewProfile)
  | cloneProfile (profile count : ℕ)
  | editProfile (profile proxy : ℕ) (overrides : Option MachineOverrides)
  | deleteProfile (profile : ℕ)
  | restoreProfile (profile : ℕ)
  | purgeProfile (profile : ℕ)
  | moveProfiles (ids : List ℕ) (project : ℕ)
  | deleteProject (project : ℕ)
  | addOrgPersona (persona : Persona)
  | deleteOrgPersona (id : String)
  deriving DecidableEq, Repr

/-- What a handler carries to its next statement. -/
inductive Stage where
  | arrived (req : Request)
  /-- `create_profile`, before it counts. -/
  | createCounts (row : NewProfile)
  /-- Before it reads the catalogue. -/
  | createChecks (row : NewProfile)
  /-- Before it reads the proxy. -/
  | createProxy (row : NewProfile)
  /-- `clone_profile`, before it reads the profile. -/
  | cloneReads (profile count : ℕ)
  /-- Before it asks for permission. -/
  | cloneRequires (row : NewProfile) (count : ℕ)
  /-- Before it inserts so many rows. -/
  | inserting (row : NewProfile) (count : ℕ)
  /-- `edit_profile`, before it reads the profile. -/
  | editReads (profile proxy : ℕ) (overrides : Option MachineOverrides) (perms : PermSet)
  /-- Before it reads the catalogue, as the overrides change. -/
  | editChecks (profile proxy : ℕ) (personaId : String) (overrides : MachineOverrides)
  /-- Before it reads the proxy. -/
  | editProxy (profile proxy : ℕ) (overrides : MachineOverrides)
  | updating (profile proxy : ℕ) (overrides : MachineOverrides)
  /-- `delete_profile`, before its update. -/
  | trashing (profile : ℕ)
  /-- `restore_profile`, before its update. -/
  | restoring (profile : ℕ)
  /-- `purge_profile`, before its delete. -/
  | purging (profile : ℕ)
  /-- `move_profiles`, before the next profile, or the commit. -/
  | moving (todo : List ℕ) (project : ℕ) (moved : List ℕ)
  /-- `delete_project`, before it commits. -/
  | trashingProject (project : ℕ)
  /-- `add_org_persona`, before its upsert. -/
  | savingPersona (persona : Persona)
  /-- `delete_org_persona`, before it counts. -/
  | deletingCounts (id : String)
  | deletingPersona (id : String)
  deriving DecidableEq, Repr

section Statements

variable (conf : Config) (db : Db) (c : Caller) (a : Access)

/-- Go on if a check passes. -/
def goOn (ok : Bool) (stage : Stage) : Option Stage := if ok then some stage else none

/-- The id of a persona is letters, digits, `-` and `_`. -/
def personaIdFits (id : String) : Bool :=
  id ≠ "" && id.utf8ByteSize ≤ 100 && id.toList.all fun c =>
    (c.isAlpha || c.isDigit) || c = '-' || c = '_'

/-- A persona that is there is its author's, an owner's or an admin's to change. -/
def mayChangePersona (id : String) : Bool :=
  (lookup OrgPersona.key db.personas (c.org, id)).all fun r =>
    r.createdBy = some c.user || hasImplicitProjectAccess c.role

/-- The checks of `add_org_persona`. -/
def addOrgPersona (persona : Persona) : Bool :=
  (hasImplicitProjectAccess c.role || a.granted.has .createProfile) && personaIdFits persona.id &&
    !(conf.shared.builtIn.any fun p => p.id = persona.id) && persona.validate conf.shared &&
    mayChangePersona db c persona.id

/-- The first statements of a request. -/
def begins : Request → Option Stage
  | .createProfile row =>
    goOn ((db.permissionsFor c row.project a).has .createProfile && row.proxy.isSome)
      (.createCounts row)
  | .cloneProfile profile count =>
    goOn (1 ≤ count && count ≤ 500 && db.hasRoom conf c.org count) (.cloneReads profile count)
  | .editProfile profile proxy overrides =>
    let perms := db.permissionsForProfile c profile a
    goOn (perms.has .editProfile) (.editReads profile proxy overrides perms)
  | .deleteProfile profile =>
    goOn ((db.permissionsForProfile c profile a).has .deleteProfile && !a.isOpen)
      (.trashing profile)
  | .restoreProfile profile =>
    goOn ((db.profile profile).any fun p => (db.permissionsFor c p.project a).has .deleteProfile)
      (.restoring profile)
  | .purgeProfile profile =>
    goOn ((db.profile profile).any fun p => (db.permissionsFor c p.project a).has .deleteProfile)
      (.purging profile)
  | .moveProfiles ids project =>
    goOn (ids ≠ [] && (db.permissionsFor c project a).has .createProfile) (.moving ids project [])
  | .deleteProject project =>
    goOn (c.administers && !a.isOpen && (db.project project).any fun p => p.org = c.org)
      (.trashingProject project)
  | .addOrgPersona persona => goOn (addOrgPersona conf db c a persona) (.savingPersona persona)
  | .deleteOrgPersona id =>
    goOn ((lookup OrgPersona.key db.personas (c.org, id)).isSome && mayChangePersona db c id)
      (.deletingCounts id)

/-- `edit_profile` compares what it reads with what is asked for. -/
def editReads (profile proxy : ℕ) (overrides : Option MachineOverrides) (perms : PermSet) :
    Option Stage :=
  (db.profile profile).bind fun p =>
    if p.proxy ≠ some proxy && !perms.has .editProxy then none
    else
      let new := overrides.getD p.overrides
      if new ≠ p.overrides then
        goOn (perms.has .editFingerprint) (.editChecks profile proxy p.personaId new)
      else some (.editProxy profile proxy new)

/-- The next profile of `move_profiles`. -/
def moveNext (id : ℕ) (todo : List ℕ) (project : ℕ) (moved : List ℕ) : Option Stage :=
  ((db.profile id).filter fun p => p.org = c.org && !p.deleted).bind fun p =>
    if p.project = project || id ∈ moved then some (.moving todo project moved)
    else goOn (!a.isOpen && (db.permissionsFor c p.project a).has .deleteProfile)
      (.moving todo project (id :: moved))

/-- `INSERT INTO profiles`. -/
def insertProfile (row : NewProfile) : Db :=
  { db with
    profiles := { toNewProfile := row, id := db.fresh, org := c.org, deleted := false } ::
      db.profiles
    fresh := db.fresh + 1 }

/-- Update the profiles that match. -/
def updateProfiles (p : Profile → Bool) (f : Profile → Profile) : Db :=
  { db with profiles := updateWhere p f db.profiles }

/-- The upsert of `add_org_persona`, which leaves the author. -/
def savePersona (persona : Persona) : Db :=
  let author := ((lookup OrgPersona.key db.personas (c.org, persona.id)).map
    OrgPersona.createdBy).getD (some c.user)
  { db with personas := put OrgPersona.key ⟨c.org, persona.id, persona, author⟩ db.personas }

/-- One statement: the tables after it, and what the handler goes on with. -/
def next : Stage → Db × Option Stage
  | .arrived req => (db, begins conf db c a req)
  | .createCounts row => (db, goOn (db.hasRoom conf c.org 1) (.createChecks row))
  | .createChecks row =>
    (db, goOn (db.stands conf.shared c.org row.personaId row.overrides) (.createProxy row))
  | .createProxy row => (db, goOn (row.proxy.all (db.usable c.org)) (.inserting row 1))
  | .cloneReads profile count =>
    (db, ((db.profile profile).filter fun p => p.org = c.org && !p.deleted).map fun p =>
      .cloneRequires p.toNewProfile count)
  | .cloneRequires row count =>
    (db, goOn ((db.permissionsFor c row.project a).has .createProfile) (.inserting row count))
  | .inserting _ 0 => (db, none)
  | .inserting row (count + 1) => (insertProfile db c row, some (.inserting row count))
  | .editReads profile proxy overrides perms => (db, editReads db profile proxy overrides perms)
  | .editChecks profile proxy personaId overrides =>
    (db, goOn (db.stands conf.shared c.org personaId overrides)
      (.editProxy profile proxy overrides))
  | .editProxy profile proxy overrides =>
    (db, goOn (db.usable c.org proxy) (.updating profile proxy overrides))
  | .updating profile proxy overrides =>
    (updateProfiles db (fun p => p.id = profile && !p.deleted)
      fun p => { p with proxy := some proxy, overrides := overrides }, none)
  | .trashing profile =>
    (updateProfiles db (fun p => p.id = profile && !p.deleted)
      fun p => { p with deleted := true }, none)
  | .restoring profile =>
    (updateProfiles db (fun p => p.id = profile) fun p => { p with deleted := false }, none)
  | .purging profile =>
    ({ db with profiles := deleteWhere (fun p => p.id = profile && p.deleted) db.profiles }, none)
  | .moving [] project moved =>
    (updateProfiles db (fun p => p.id ∈ moved) fun p => { p with project := project }, none)
  | .moving (id :: todo) project moved => (db, moveNext db c a id todo project moved)
  | .trashingProject project =>
    ({ updateProfiles db (fun p => p.project = project && p.org = c.org)
        fun p => { p with deleted := true } with
      projects := updateWhere (fun p => p.id = project && p.org = c.org)
        (fun p => { p with deleted := true }) db.projects }, none)
  | .savingPersona persona => (savePersona db c persona, none)
  | .deletingCounts id =>
    (db, goOn ((db.live c.org).all fun p => p.personaId ≠ id) (.deletingPersona id))
  | .deletingPersona id =>
    ({ db with personas := deleteWhere (fun r => r.key = (c.org, id)) db.personas }, none)

end Statements

end FuryBrowser.ProfileRequests
