import FuryBrowser.InFlight
import FuryBrowser.TeamRequests

/-!
# Grants that follow a role

An organisation can name roles of its own, and a grant on a project can follow one. Its
permissions are stored: the role's boxes, capped by what the person's own role allows. They
are written again when the grant, the role or the person's role changes, each time from what
was read before. A grant is what its role says as long as what was read is still so when it
is written.

The requests are the ones of `TeamRequests`, with every statement a step of its own.
-/

namespace FuryBrowser.LinkedGrants

open GuardedRuns RowTable Permissions TeamTables InFlight
open TeamRequests (Caller grantLink requested listsKnown mayGrant relinked rewrite setMemberRole
  writeGrant execute draw)
open OrgKeys (Role)

/-- The body of `grant_access`. -/
structure GrantRequest where
  project : ℕ
  user : ℕ
  /-- The boxes that are ticked. -/
  permissions : List Perm
  /-- `expires_at`. -/
  expires : Option ℕ
  /-- No lists keep the lists there are. -/
  domainLists : Option (List ℕ)
  /-- Nothing keeps the role it follows. -/
  accessRole : Option (Option ℕ)
  deriving DecidableEq, Repr

/-- A request. -/
inductive Request where
  | grantAccess (body : GrantRequest)
  | upsertAccessRole (id : Option ℕ) (permissions : List Perm)
  | deleteAccessRole (id : ℕ)
  | setMemberRole (user : ℕ) (role : Role)
  deriving DecidableEq, Repr

/-- What a handler carries to its next statement. -/
inductive Stage where
  /-- Its session is to be found. -/
  | arrived (req : Request)
  /-- `grant_access`, before it asks for permission. -/
  | requiring (body : GrantRequest)
  /-- Before it reads the role of whom it is for. -/
  | readingRole (body : GrantRequest)
  /-- Before it reads which role the grant follows. -/
  | readingLink (body : GrantRequest) (role : Role)
  /-- Before it reads that role's boxes. -/
  | readingBits (body : GrantRequest) (role : Role) (link : Option ℕ)
  /-- Before it reads the domain lists. -/
  | readingLists (g : ProjectGrant) (domainLists : Option (List ℕ))
  | granting (g : ProjectGrant) (domainLists : Option (List ℕ))
  /-- `upsert_access_role`, before its transaction. -/
  | savingRole (id : Option ℕ) (permissions : PermSet)
  /-- It has written the role, and is about to read the grants on it. -/
  | savedRole (r : AccessRole)
  /-- It writes these grants, and commits. -/
  | committing (r : AccessRole) (writes : List ((ℕ × ℕ) × PermSet))
  /-- `delete_access_role`. -/
  | deletingRole (id : ℕ)
  /-- `set_member_role`, before it reads the person's role. -/
  | checkingMember (user : ℕ) (role : Role)
  | settingRole (user : ℕ) (role : Role)
  /-- Before it reads the person's grants. -/
  | relinking (user : ℕ)
  /-- Before it writes the next of them. -/
  | rewriting (writes : List ((ℕ × ℕ) × PermSet))
  deriving DecidableEq, Repr

/-- What other requests do. -/
inductive Change where
  /-- Somebody joins an organisation. -/
  | join (org : ℕ) (role : Role)
  | createProject (org : ℕ)
  | revokeAccess (project user : ℕ)
  | tick (seconds : ℕ)
  deriving DecidableEq, Repr

section Statements

variable (db : Db) (c : Caller)

/-- Go on if a check passes. -/
def goOn (ok : Bool) (stage : Stage) : Option Stage := if ok then some stage else none

/-- The session is somebody's of the organisation; roles and persons are for owners and
admins to change. -/
def begins (req : Request) : Option Stage :=
  if (db.member c.user c.org).any fun m => m.role = c.role then
    match req with
    | .grantAccess body => some (.requiring body)
    | .upsertAccessRole id permissions =>
      goOn c.administers (.savingRole id ((PermSet.fromIter permissions).insert .view))
    | .deleteAccessRole id => goOn c.administers (.deletingRole id)
    | .setMemberRole user role => goOn c.administers (.checkingMember user role)
  else none

/-- The role of whom a grant is for, in the project's organisation. -/
def targetRole (project user : ℕ) : Option Role :=
  (lookup Project.id db.projects project).bind fun p => (db.member user p.org).map Member.role

/-- The grant that is to be written. -/
def capped (body : GrantRequest) (role : Role) (link : Option ℕ) (asked : PermSet) :
    ProjectGrant :=
  ⟨body.project, body.user, asked.intersect (roleCeiling role), body.expires,
    body.domainLists.getD [], link⟩

/-- One statement: the tables after it, and what the handler goes on with. -/
def next : Stage → Db × Option Stage
  | .arrived req => (db, begins db c req)
  | .requiring body => (db, goOn (mayGrant db c body.project) (.readingRole body))
  | .readingRole body => (db, (targetRole db body.project body.user).map (.readingLink body))
  | .readingLink body role =>
    (db, some (.readingBits body role (grantLink db body.project body.user body.accessRole)))
  | .readingBits body role link =>
    (db, (requested db c link body.permissions).map fun asked =>
      .readingLists (capped body role link asked) body.domainLists)
  | .readingLists g domainLists =>
    (db, goOn (domainLists.all (listsKnown db c)) (.granting g domainLists))
  | .granting g domainLists => (execute db (writeGrant db c g domainLists), none)
  | .savingRole id permissions =>
    let r : AccessRole := ⟨id.getD db.fresh, c.org, permissions⟩
    (draw db, goOn ((lookup AccessRole.id db.accessRoles r.id).all fun old => old.org = c.org)
      (.savedRole r))
  | .savedRole r =>
    (db, some (.committing r
      (relinked db c (put AccessRole.id r db.accessRoles) (some r.id) none)))
  | .committing r writes => (execute db (.saveAccessRole r writes), none)
  | .deletingRole id =>
    (if (lookup AccessRole.id db.accessRoles id).any fun r => r.org = c.org then
      execute db (.dropAccessRole id) else db, none)
  | .checkingMember user role => (db, goOn (setMemberRole db c user role) (.settingRole user role))
  | .settingRole user role => (execute db (.setRole user c.org role), some (.relinking user))
  | .relinking user =>
    (db, some (.rewriting (relinked db c db.accessRoles none (some user))))
  | .rewriting [] => (db, none)
  | .rewriting (write :: writes) =>
    (execute db (.setPermissions [write]), some (.rewriting writes))

/-- What a change makes of the tables. -/
def change : Change → Db
  | .join org role =>
    { db with members := ⟨db.users, org, role⟩ :: db.members, users := db.users + 1 }
  | .createProject org => execute db (.insertProject org)
  | .revokeAccess project user => execute db (.dropProjectGrant project user)
  | .tick seconds => { db with now := db.now + seconds }

end Statements

/-- The role that a transaction has written and not committed. -/
def Stage.writtenRole : Stage → Option ℕ
  | .savedRole r => some r.id
  | .committing r _ => some r.id
  | _ => none

/-- The role that a statement would write, if it names one. -/
def Stage.writesRole : Stage → Option ℕ
  | .savingRole id _ => id
  | .deletingRole id => some id
  | _ => none

/-- A statement waits for the transaction that has written its role. -/
def waits (w : InFlight.World Db Caller Stage) (f : Flight Caller Stage) : Bool :=
  f.stage.writesRole.any fun id => w.flights.all.any fun g => g.stage.writtenRole = some id

/-- The handlers. -/
def handlers : Handlers Db Caller Stage Unit Change where
  arrives stage := match stage with
    | .arrived _ => true
    | _ => false
  next db c _ stage := some (next db c stage)
  outside := change
  waits := waits

/-- The tables of a server and its requests. -/
abbrev World := InFlight.World Db Caller Stage

/-- What happens next. -/
abbrev Label := InFlight.Label Caller Stage Unit Change

/-- One step. -/
abbrev step : World → Label → Option World := InFlight.step handlers

/-- The boxes of the role a grant follows, capped by what the person's role allows. -/
def linkedBits (db : Db) (roles : List AccessRole) (g : ProjectGrant) : Option PermSet :=
  g.accessRole.bind fun link => (lookup AccessRole.id roles link).bind fun r =>
    (targetRole db g.project g.user).map fun role => r.permissions.intersect (roleCeiling role)

/-- A grant that follows a role has what the role says. -/
def Right (db : Db) (g : ProjectGrant) : Prop :=
  g.accessRole ≠ none → linkedBits db db.accessRoles g = some g.permissions

instance (db : Db) (g : ProjectGrant) : Decidable (Right db g) := by
  unfold Right
  infer_instance

/-- A person's role has changed, and this request will still write this grant. -/
def owes : Stage → ProjectGrant → Bool
  | .relinking user, g => g.user = user
  | .rewriting writes, g => g.key ∈ writes.map Prod.fst
  | _, _ => false

/-- What a statement writes was read when it was as it still is. A transaction that has changed
a role writes every grant on it, and no other that follows a role. -/
def UpToDate (db : Db) : Stage → Prop
  | .granting g _ => Right db g
  | .committing r writes => ∀ g ∈ db.projectGrants, g.accessRole ≠ none →
      if g.accessRole = some r.id then g.key ∈ writes.map Prod.fst ∧ ∀ write ∈ writes,
        write.1 = g.key →
          linkedBits db (put AccessRole.id r db.accessRoles) g = some write.2
      else g.key ∉ writes.map Prod.fst
  | .rewriting writes => ∀ write ∈ writes.head?, ∀ g ∈ db.projectGrants, g.key = write.1 →
      g.accessRole ≠ none → linkedBits db db.accessRoles g = some write.2
  | _ => True

instance (db : Db) (stage : Stage) : Decidable (UpToDate db stage) := by
  cases stage <;> dsimp only [UpToDate] <;> infer_instance

/-- Whatever is written is up to date, and no request is lost that owes something. -/
def Guard (w : World) : Label → Prop
  | .runs id _ => ∀ f ∈ w.flights.all, f.id = id → UpToDate w.db f.stage
  | .lost id => ∀ f ∈ w.flights.all, f.id = id → ∀ g ∈ w.db.projectGrants,
      owes f.stage g = true → Right w.db g
  | _ => True

instance : DecidableRel Guard := fun w l => by
  rcases l with _ | _ | _ | _ <;> dsimp only [Guard] <;> infer_instance

section Tables

variable {db db' : Db} {c : Caller} {g g' : ProjectGrant}

/-- Keys, and what linked grants refer to. -/
structure Tables (db : Db) : Prop where
  /-- The primary key of `org_members`, as nobody is in two organisations. -/
  members : KeyUnique Member.user db.members
  joined : ∀ m ∈ db.members, m.user < db.users
  /-- A new project has a new id. -/
  drawn : ∀ p ∈ db.projects, p.id < db.fresh
  /-- A linked grant has a role, and somebody of the project's organisation. -/
  linked : ∀ g ∈ db.projectGrants, g.accessRole ≠ none →
    (linkedBits db db.accessRoles g).isSome = true

/-- What a role gives depends on whose grant it is, on which project, and the link. -/
theorem linkedBits_congr {roles : List AccessRole} (hkey : g'.key = g.key)
    (hlink : g'.accessRole = g.accessRole) : linkedBits db roles g' = linkedBits db roles g := by
  obtain ⟨hproject, huser⟩ := Prod.mk.inj hkey
  unfold linkedBits
  rw [hlink, hproject, huser]

/-- And on the two tables of persons and projects. -/
theorem linkedBits_of_same {roles : List AccessRole}
    (h : targetRole db' g.project g.user = targetRole db g.project g.user) :
    linkedBits db' roles g = linkedBits db roles g := by
  unfold linkedBits
  rw [h]

/-- A grant on another role does not see a role that is put or changed. -/
theorem linkedBits_put_of_ne {r : AccessRole} (h : g.accessRole ≠ some r.id) :
    linkedBits db (put AccessRole.id r db.accessRoles) g = linkedBits db db.accessRoles g := by
  unfold linkedBits
  cases hlink : g.accessRole with
  | none => rfl
  | some link =>
    have hne : link ≠ r.id := fun heq => h (by rw [hlink, heq])
    simp only [Option.bind_some]
    rw [lookup_put_of_ne hne]

theorem linkedBits_delete_of_ne {rid : ℕ} (h : g.accessRole ≠ some rid) :
    linkedBits db (deleteWhere (fun r => r.id = rid) db.accessRoles) g =
      linkedBits db db.accessRoles g := by
  unfold linkedBits
  cases hlink : g.accessRole with
  | none => rfl
  | some link =>
    have hne : link ≠ rid := fun heq => h (by rw [hlink, heq])
    simp only [Option.bind_some]
    rw [lookup_deleteWhere_of fun r hrl => by simpa [hrl] using hne]

theorem owes_congr (hkey : g'.key = g.key) (stage : Stage) : owes stage g' = owes stage g := by
  obtain ⟨_, huser⟩ := Prod.mk.inj hkey
  cases stage with
  | relinking user => simp only [owes, huser]
  | rewriting writes => simp only [owes, hkey]
  | _ => rfl

/-- The permissions of a grant are the old ones, or the last that were written for it. -/
theorem rewrite_cases {writes : List ((ℕ × ℕ) × PermSet)} {grants : List ProjectGrant}
    (h : g' ∈ rewrite writes grants) : ∃ g ∈ grants, g'.key = g.key ∧
      g'.accessRole = g.accessRole ∧ ((g.key ∉ writes.map Prod.fst ∧ g' = g) ∨
        ∃ write ∈ writes, write.1 = g.key ∧ g'.permissions = write.2) := by
  induction writes generalizing grants with
  | nil => exact ⟨g', h, rfl, rfl, .inl ⟨List.not_mem_nil, rfl⟩⟩
  | cons write writes ih =>
    obtain ⟨mid, hmid, hkey, hlink, hcases⟩ := ih h
    rcases updateWhere_cases hmid with ⟨hin, hne⟩ | ⟨old, hold, hmatch, rfl⟩
    · refine ⟨mid, hin, hkey, hlink, ?_⟩
      rcases hcases with ⟨hnot, hsame⟩ | ⟨write', hwrite', hwkey, hperms⟩
      · refine .inl ⟨fun hmem => ?_, hsame⟩
        rcases List.mem_cons.mp hmem with heq | hrest
        · exact of_decide_eq_false hne heq
        · exact hnot hrest
      · exact .inr ⟨write', List.mem_cons_of_mem _ hwrite', hwkey, hperms⟩
    · refine ⟨old, hold, hkey, hlink, .inr ?_⟩
      rcases hcases with ⟨_, rfl⟩ | ⟨write', hwrite', hwkey, hperms⟩
      · exact ⟨write, List.mem_cons_self, (of_decide_eq_true hmatch).symm, rfl⟩
      · exact ⟨write', List.mem_cons_of_mem _ hwrite', hwkey, hperms⟩

/-- Somebody whose role changes is of the same organisation. -/
theorem member_setRole {user org : ℕ} {role : Role} (user' org' : ℕ) :
    (execute db (.setRole user org role)).member user' org' =
      (db.member user' org').map fun m =>
        if m.user = user && m.org = org then { m with role := role } else m := by
  unfold Db.member
  have hlookup : lookup Member.user (execute db (.setRole user org role)).members user' =
      (lookup Member.user db.members user').map fun m =>
        if m.user = user && m.org = org then { m with role := role } else m :=
    lookup_updateWhere fun _ _ => rfl
  rw [hlookup]
  cases lookup Member.user db.members user' with
  | none => rfl
  | some m =>
    have horg : (if m.user = user && m.org = org then { m with role := role } else m).org =
        m.org := by split <;> rfl
    simp only [Option.map_some, Option.filter_some, horg]
    split <;> rfl

/-- Nobody leaves, and projects and the persons on them stay what they are. -/
structure Stays (db db' : Db) : Prop where
  member : ∀ user org, (db.member user org).isSome = true → (db'.member user org).isSome = true
  /-- The role that caps a grant is still there. -/
  target : ∀ project user, (targetRole db project user).isSome = true →
    (targetRole db' project user).isSome = true

theorem Stays.of_same (hmembers : db'.members = db.members)
    (hprojects : db'.projects = db.projects) :
    Stays db db' := by
  have hmember : ∀ user org, db'.member user org = db.member user org := by
    intro user org
    unfold Db.member
    rw [hmembers]
  refine ⟨fun user org h => by rw [hmember]; exact h, fun project user h => ?_⟩
  unfold targetRole at h ⊢
  rw [hprojects]
  simpa only [hmember] using h

theorem targetRole_setRole_of_ne {user org : ℕ} {role : Role} (h : g.user ≠ user) :
    targetRole (execute db (.setRole user org role)) g.project g.user =
      targetRole db g.project g.user := by
  unfold targetRole
  have hprojects : (execute db (.setRole user org role)).projects = db.projects := rfl
  rw [hprojects]
  congr 1
  funext p
  rw [member_setRole]
  cases hm : db.member g.user p.org with
  | none => rfl
  | some m =>
    have huser : m.user = g.user := (lookup_some (Option.filter_eq_some_iff.mp hm).1).2
    simp [huser, h]

theorem stays_setRole {user org : ℕ} {role : Role} :
    Stays db (execute db (.setRole user org role)) := by
  refine ⟨fun user' org' h => by rw [member_setRole, Option.isSome_map]; exact h,
    fun project user' h => ?_⟩
  obtain ⟨role', hrole'⟩ := Option.isSome_iff_exists.mp h
  obtain ⟨p, hp, hmember⟩ := Option.bind_eq_some_iff.mp hrole'
  obtain ⟨m, hm, _⟩ := Option.map_eq_some_iff.mp hmember
  have hp' : lookup Project.id (execute db (.setRole user org role)).projects project = some p := hp
  unfold targetRole
  rw [hp', Option.bind_some, member_setRole, hm]
  rfl

/-- A role that is there gives its grants something. -/
theorem linkedBits_isSome {roles : List AccessRole} : (linkedBits db roles g).isSome = true ↔
    ∃ link, g.accessRole = some link ∧ (lookup AccessRole.id roles link).isSome = true ∧
      (targetRole db g.project g.user).isSome = true := by
  unfold linkedBits
  cases g.accessRole with
  | none => simp
  | some link =>
    cases hr : lookup AccessRole.id roles link with
    | none => simp [hr]
    | some r => simp [hr]

/-- Linked grants keep a role and a person when roles and persons stay. -/
theorem linked_of_stays (hs : Stays db db') (hkey : g'.key = g.key)
    (hlink : g'.accessRole = g.accessRole)
    (hroles : ∀ link, g.accessRole = some link →
      (lookup AccessRole.id db.accessRoles link).isSome = true →
      (lookup AccessRole.id db'.accessRoles link).isSome = true)
    (h : (linkedBits db db.accessRoles g).isSome = true) :
    (linkedBits db' db'.accessRoles g').isSome = true := by
  obtain ⟨link, heq, hrole, htarget⟩ := linkedBits_isSome.mp h
  obtain ⟨hproject, huser⟩ := Prod.mk.inj hkey
  refine linkedBits_isSome.mpr ⟨link, hlink.trans heq, hroles link heq hrole, ?_⟩
  rw [hproject, huser]
  exact hs.target _ _ htarget

end Tables

section Writes

variable {db : Db} {c : Caller} {g : ProjectGrant}

/-- `grant_access` writes what it carries, or nothing. -/
theorem writeGrant_cases (db : Db) (c : Caller) (g : ProjectGrant)
    (domainLists : Option (List ℕ)) : execute db (writeGrant db c g domainLists) = db ∨
      ∃ lists, execute db (writeGrant db c g domainLists) =
        { db with projectGrants :=
                    put ProjectGrant.key { g with domainLists := lists } db.projectGrants } := by
  unfold writeGrant
  split
  · exact .inr ⟨_, rfl⟩
  · exact .inl rfl

/-- Which organisation and role persons have does not change with the statement. -/
theorem stays_next (stage : Stage) : Stays db (next db c stage).1 := by
  cases stage with
  | granting g domainLists =>
    rcases writeGrant_cases db c g domainLists with h | ⟨lists, h⟩
    · rw [next, h]
      exact .of_same rfl rfl
    · rw [next, h]
      exact .of_same rfl rfl
  | settingRole user role => exact stays_setRole
  | deletingRole id =>
    simp only [next]
    split <;> exact .of_same rfl rfl
  | rewriting writes => cases writes <;> exact .of_same rfl rfl
  | _ => exact .of_same rfl rfl

theorem tables_next {stage : Stage} (h : Tables db) (hg : UpToDate db stage) :
    Tables (next db c stage).1 := by
  have hsame : ∀ {db' : Db}, db'.members = db.members → db'.users = db.users →
      db'.projects = db.projects → db.fresh ≤ db'.fresh →
      (∀ g ∈ db'.projectGrants, g.accessRole ≠ none →
        (linkedBits db' db'.accessRoles g).isSome = true) → Tables db' := by
    intro db' hmembers husers hprojects hfresh hlinked
    exact ⟨hmembers ▸ h.members, fun m hm => husers ▸ h.joined m (hmembers ▸ hm),
      fun p hp => Nat.lt_of_lt_of_le (h.drawn p (hprojects ▸ hp)) hfresh, hlinked⟩
  have hstays : Stays db (next db c stage).1 := stays_next stage
  cases stage with
  | granting g domainLists =>
    simp only [next] at hstays ⊢
    rcases writeGrant_cases db c g domainLists with heq | ⟨lists, heq⟩
    · rw [heq]
      exact h
    · rw [heq] at hstays ⊢
      refine hsame rfl rfl rfl (Nat.le_refl _) fun g' hg' hlink => ?_
      rcases mem_put.mp hg' with rfl | ⟨hin, _⟩
      · have hbits : (linkedBits db db.accessRoles g).isSome = true := by
          rw [hg hlink]
          rfl
        exact linked_of_stays (g := g) hstays rfl rfl (fun _ _ hr => hr) hbits
      · exact linked_of_stays hstays rfl rfl (fun _ _ hr => hr) (h.linked g' hin hlink)
  | savingRole id permissions =>
    refine hsame rfl rfl rfl (Nat.le_succ _) fun g' hg' hlink => ?_
    exact linked_of_stays hstays rfl rfl (fun _ _ hr => hr) (h.linked g' hg' hlink)
  | committing r writes =>
    refine hsame rfl rfl rfl (Nat.le_succ _) fun g' hg' hlink => ?_
    obtain ⟨g, hin, hkey, hsamelink, _⟩ := rewrite_cases hg'
    refine linked_of_stays hstays hkey hsamelink (fun link _ hr => ?_)
      (h.linked g hin (hsamelink ▸ hlink))
    by_cases heq : link = r.id
    · subst heq
      rw [show (next db c (.committing r writes)).1.accessRoles =
        put AccessRole.id r db.accessRoles from rfl, lookup_put_self]
      rfl
    · rw [show (next db c (.committing r writes)).1.accessRoles =
        put AccessRole.id r db.accessRoles from rfl, lookup_put_of_ne heq]
      exact hr
  | deletingRole id =>
    simp only [next] at hstays ⊢
    split
    next hown =>
      rw [if_pos hown] at hstays
      refine hsame rfl rfl rfl (Nat.le_refl _) fun g' hg' hlink => ?_
      rcases updateWhere_cases hg' with ⟨hin, hne⟩ | ⟨old, _, _, rfl⟩
      · refine linked_of_stays hstays rfl rfl (fun link hl hr => ?_) (h.linked g' hin hlink)
        have hother : link ≠ id := fun heq => of_decide_eq_false hne (heq ▸ hl)
        have hkept : lookup AccessRole.id (deleteWhere (fun r => r.id = id) db.accessRoles) link =
            lookup AccessRole.id db.accessRoles link :=
          lookup_deleteWhere_of fun r hrl => by simpa [hrl] using hother
        exact (congrArg Option.isSome hkept).trans hr
      · exact absurd rfl hlink
    next => exact h
  | settingRole user role =>
    refine ⟨h.members.updateWhere fun _ _ => rfl, fun m hm => ?_, h.drawn, fun g' hg' hlink => ?_⟩
    · rcases updateWhere_cases hm with ⟨hin, _⟩ | ⟨old, hold, _, rfl⟩
      · exact h.joined m hin
      · exact h.joined old hold
    · exact linked_of_stays hstays rfl rfl (fun _ _ hr => hr) (h.linked g' hg' hlink)
  | rewriting writes =>
    cases writes with
    | nil => exact h
    | cons write rest =>
      refine hsame rfl rfl rfl (Nat.le_refl _) fun g' hg' hlink => ?_
      obtain ⟨g, hin, hkey, hsamelink, _⟩ := rewrite_cases hg'
      exact linked_of_stays hstays hkey hsamelink (fun _ _ hr => hr)
        (h.linked g hin (hsamelink ▸ hlink))
  | _ => exact h

end Writes

section Changes

variable {db : Db} {g : ProjectGrant}

/-- Whoever joins is nobody who was there. -/
theorem member_change (h : Tables db) (x : Change) {user org : ℕ} {m : Member}
    (hm : db.member user org = some m) : (change db x).member user org = some m := by
  cases x with
  | join org' role =>
    obtain ⟨hlookup, horg⟩ := Option.filter_eq_some_iff.mp hm
    obtain ⟨hin, rfl⟩ := lookup_some hlookup
    have hne : db.users ≠ m.user := Nat.ne_of_gt (h.joined m hin)
    have hsame : lookup Member.user (change db (.join org' role)).members m.user = some m := by
      simp only [change, lookup]
      rw [List.find?_cons_of_neg (by simpa using hne)]
      exact hlookup
    unfold Db.member
    rw [hsame]
    exact Option.filter_eq_some_iff.mpr ⟨rfl, horg⟩
  | _ => exact hm

theorem target_change (h : Tables db) (x : Change) {project user : ℕ} {role : Role}
    (ht : targetRole db project user = some role) :
    targetRole (change db x) project user = some role := by
  obtain ⟨p, hp, hrole⟩ := Option.bind_eq_some_iff.mp ht
  obtain ⟨m, hm, rfl⟩ := Option.map_eq_some_iff.mp hrole
  have hp' : lookup Project.id (change db x).projects project = some p := by
    cases x with
    | createProject org =>
      obtain ⟨hin, rfl⟩ := lookup_some hp
      have hne : db.fresh ≠ p.id := Nat.ne_of_gt (h.drawn p hin)
      simp only [change, execute, draw, lookup]
      rw [List.find?_cons_of_neg (by simpa using hne)]
      exact hp
    | _ => exact hp
  unfold targetRole
  rw [hp', Option.bind_some, member_change h x hm, Option.map_some]

theorem stays_change (h : Tables db) (x : Change) : Stays db (change db x) := by
  refine ⟨fun user org hm => ?_, fun project user ht => ?_⟩
  · obtain ⟨m, hm⟩ := Option.isSome_iff_exists.mp hm
    rw [member_change h x hm]
    rfl
  · obtain ⟨role, hrole⟩ := Option.isSome_iff_exists.mp ht
    rw [target_change h x hrole]
    rfl

theorem accessRoles_change (db : Db) (x : Change) :
    (change db x).accessRoles = db.accessRoles := by cases x <;> rfl

theorem grants_change (x : Change) (hg : g ∈ (change db x).projectGrants) :
    g ∈ db.projectGrants := by
  cases x with
  | revokeAccess project user => exact (mem_deleteWhere.mp hg).1
  | _ => exact hg

theorem tables_change (h : Tables db) (x : Change) : Tables (change db x) := by
  have hlinked : ∀ g ∈ (change db x).projectGrants, g.accessRole ≠ none →
      (linkedBits (change db x) (change db x).accessRoles g).isSome = true := by
    intro g hg hlink
    refine linked_of_stays (stays_change h x) rfl rfl (fun link _ hr => ?_)
      (h.linked g (grants_change x hg) hlink)
    rw [accessRoles_change]
    exact hr
  cases x with
  | join org role =>
    refine ⟨h.members.cons fun m hm => Nat.ne_of_lt (h.joined m hm), fun m hm => ?_, h.drawn,
      hlinked⟩
    rcases List.mem_cons.mp hm with rfl | hin
    · exact Nat.lt_succ_self _
    · exact Nat.lt_succ_of_lt (h.joined m hin)
  | createProject org =>
    refine ⟨h.members, h.joined, fun p hp => ?_, hlinked⟩
    rcases List.mem_cons.mp hp with rfl | hin
    · exact Nat.lt_succ_self _
    · exact Nat.lt_succ_of_lt (h.drawn p hin)
  | _ => exact ⟨h.members, h.joined, h.drawn, hlinked⟩

/-- What is right stays right over what other requests do. -/
theorem right_change (h : Tables db) (x : Change) (hright : Right db g) :
    Right (change db x) g := by
  intro hlink
  have hbits := hright hlink
  unfold linkedBits at hbits ⊢
  obtain ⟨link, hl, hbits⟩ := Option.bind_eq_some_iff.mp hbits
  obtain ⟨r, hr, hbits⟩ := Option.bind_eq_some_iff.mp hbits
  obtain ⟨role, hrole, hbits⟩ := Option.map_eq_some_iff.mp hbits
  rw [hl, Option.bind_some, accessRoles_change, hr, Option.bind_some, target_change h x hrole,
    Option.map_some, hbits]

end Changes

section Owed

variable {w : World} {f : Flight Caller Stage} {db' : Db} {st : Option Stage}

/-- Who it is that `set_member_role` is about. -/
def target : Stage → Option ℕ
  | .settingRole user _ => some user
  | .relinking user => some user
  | _ => none

/-- A request's caller, and whom it is about, are of its organisation. -/
structure Own (db : Db) (c : Caller) (stage : Stage) : Prop where
  /-- The caller, once the session is found. -/
  caller : (∀ req, stage ≠ .arrived req) → (db.member c.user c.org).isSome = true
  other : ∀ user, target stage = some user → (db.member user c.org).isSome = true

theorem Own.stays {db : Db} {c : Caller} {stage : Stage} (hs : Stays db db') (h : Own db c stage) :
    Own db' c stage :=
  ⟨fun hstage => hs.member _ _ (h.caller hstage), fun user hu => hs.member _ _ (h.other user hu)⟩

/-- A request goes on only as somebody of its organisation, about somebody of it. -/
theorem own_next {db : Db} {c : Caller} {stage stage' : Stage} (h : Own db c stage)
    (hnext : (next db c stage).2 = some stage') : Own db c stage' := by
  have hcaller : (db.member c.user c.org).isSome = true := by
    cases stage with
    | arrived req =>
      simp only [next, begins] at hnext
      split at hnext
      next hmember =>
        obtain ⟨m, hm, _⟩ := (Option.any_eq_true ..).mp hmember
        rw [hm]
        rfl
      next => cases hnext
    | _ => exact h.caller fun _ heq => by cases heq
  refine ⟨fun _ => hcaller, fun user htarget => ?_⟩
  cases stage with
  | checkingMember user' role =>
    simp only [next, goOn] at hnext
    split at hnext
    next hok =>
      cases hnext
      cases htarget
      unfold setMemberRole at hok
      simp only [Bool.and_eq_true] at hok
      obtain ⟨m, hm, _⟩ := (Option.any_eq_true ..).mp hok.2
      rw [hm]
      rfl
    next => cases hnext
  | settingRole user' role =>
    cases hnext
    cases htarget
    exact h.other user rfl
  | arrived req =>
    simp only [next, begins] at hnext
    split at hnext
    · cases req with
      | grantAccess body =>
        cases hnext
        cases htarget
      | _ =>
        simp only [goOn] at hnext
        split at hnext
        · cases hnext
          cases htarget
        · cases hnext
    · cases hnext
  | rewriting writes =>
    cases writes with
    | nil => cases hnext
    | cons write rest =>
      cases hnext
      cases htarget
  | savedRole r | relinking user' | readingLink body role =>
    cases hnext
    cases htarget
  | readingRole body | readingBits body role link =>
    obtain ⟨_, _, rfl⟩ := Option.map_eq_some_iff.mp hnext
    cases htarget
  | requiring body | readingLists g lists | savingRole id permissions =>
    simp only [next, goOn] at hnext
    split at hnext
    · cases hnext
      cases htarget
    · cases hnext
  | _ => cases hnext

/-- Tables and requests stay right over a guarded step. -/
theorem sound_step : Preserved step Guard (Sound Tables Own) := by
  refine preserved_sound ?_ ?_ ?_
  · intro db c stage _ hstage
    cases stage with
    | arrived req => exact ⟨fun h => absurd rfl (h req), fun user hu => by cases hu⟩
    | _ => cases hstage
  · intro w f _ db' st hw hf hg hnext
    obtain ⟨rfl, rfl⟩ := Prod.mk.inj (Option.some.inj hnext)
    have hstays : Stays w.db (next w.db f.caller f.stage).1 := stays_next f.stage
    refine ⟨tables_next hw.db (hg f hf rfl), fun stage hst => ?_, fun g hin _ => ?_⟩
    · exact (own_next (hw.own f hf) hst).stays hstays
    · exact (hw.own g hin).stays hstays
  · exact fun w x hw _ => ⟨tables_change hw.db x,
      fun f hf => (hw.own f hf).stays (stays_change hw.db x)⟩

/-- A linked grant is right, or a request still owes it. -/
def Owed (w : World) : Prop := ∀ g ∈ w.db.projectGrants, Right w.db g ∨
  ∃ f ∈ w.flights.all, owes f.stage g = true

/-- What a statement may do to grants: right ones stay right, and what was owed is owed still,
or right. -/
theorem owed_goOn (hw : Owed w) (hf : f ∈ w.flights.all)
    (h : ∀ g' ∈ db'.projectGrants,
      Right db' g' ∨ (∃ stage, st = some stage ∧ owes stage g' = true) ∨
      ∃ g ∈ w.db.projectGrants, g'.key = g.key ∧ owes f.stage g = false ∧
        (Right w.db g → Right db' g')) : Owed ⟨db', w.flights.goOn f.id st⟩ := by
  intro g' hg'
  rcases h g' hg' with hright | ⟨stage, rfl, howes⟩ | ⟨g, hg, hkey, hnot, hkeeps⟩
  · exact .inl hright
  · exact .inr ⟨{ f with stage := stage }, Flights.mem_goOn_self hf, howes⟩
  · rcases hw g hg with hright | ⟨e, he, howes⟩
    · exact .inl (hkeeps hright)
    · have hne : e.id ≠ f.id := by
        intro heq
        obtain rfl := w.flights.ids.eq he hf heq
        rw [hnot] at howes
        cases howes
      exact .inr ⟨e, Flights.mem_goOn_of_ne he hne, (owes_congr hkey e.stage).trans howes⟩

/-- A statement that reads leaves what is owed, if it owed nothing itself. -/
theorem owed_of_read (hw : Owed w) (hf : f ∈ w.flights.all)
    (hnot : ∀ g, owes f.stage g = false) : Owed ⟨w.db, w.flights.goOn f.id st⟩ :=
  owed_goOn hw hf fun g hg => .inr (.inr ⟨g, hg, rfl, hnot g, fun h => h⟩)

/-- What `set_member_role` reads is every grant of the person that follows a role. -/
theorem mem_relinked {db : Db} {c : Caller} {user : ℕ} {g : ProjectGrant}
    (hown : Own db c (.relinking user)) (hg : g ∈ db.projectGrants) (huser : g.user = user)
    (hlinked : (linkedBits db db.accessRoles g).isSome = true) :
    g.key ∈ (relinked db c db.accessRoles none (some user)).map Prod.fst := by
  obtain ⟨link, hlink, hrole, htarget⟩ := linkedBits_isSome.mp hlinked
  obtain ⟨r, hr⟩ := Option.isSome_iff_exists.mp hrole
  obtain ⟨role, htarget⟩ := Option.isSome_iff_exists.mp htarget
  obtain ⟨p, hp, hmember⟩ := Option.bind_eq_some_iff.mp htarget
  obtain ⟨m, hm, rfl⟩ := Option.map_eq_some_iff.mp hmember
  obtain ⟨m', hm'⟩ := Option.isSome_iff_exists.mp (hown.other user rfl)
  -- Nobody is in two organisations, so the project is the caller's organisation's.
  obtain ⟨hlookup, horg⟩ := Option.filter_eq_some_iff.mp hm
  obtain ⟨hlookup', horg'⟩ := Option.filter_eq_some_iff.mp hm'
  rw [huser, hlookup'] at hlookup
  cases hlookup
  have hproject : p.org = c.org := (of_decide_eq_true horg).symm.trans (of_decide_eq_true horg')
  have hin : db.inOrg c.user p.org = true := by
    unfold Db.inOrg
    rw [hproject]
    exact hown.caller fun req heq => by cases heq
  refine List.mem_map.mpr ⟨(g.key, r.permissions.intersect (roleCeiling m.role)), ?_, rfl⟩
  refine List.mem_filterMap.mpr ⟨g, hg, ?_⟩
  simp [huser, hlink, hr, hp, hin, huser ▸ hm]

/-- A role is committed: its grants are written with it, and those of other roles do not see
it. -/
theorem owed_committing {id : ℕ} {c : Caller} {r : AccessRole}
    {writes : List ((ℕ × ℕ) × PermSet)} (ho : Owed w)
    (hf : ⟨id, c, .committing r writes⟩ ∈ w.flights.all)
    (hg : UpToDate w.db (.committing r writes)) :
    Owed ⟨(next w.db c (.committing r writes)).1,
      w.flights.goOn id (next w.db c (.committing r writes)).2⟩ := by
  refine owed_goOn ho hf fun g' hg' => ?_
  obtain ⟨g, hin, hkey, hlink, hcases⟩ := rewrite_cases hg'
  by_cases hnone : g.accessRole = none
  · exact .inl fun h => absurd (hlink.trans hnone) h
  have hread := hg g hin hnone
  by_cases hon : g.accessRole = some r.id
  · rw [if_pos hon] at hread
    rcases hcases with ⟨hnot, _⟩ | ⟨write, hwrite, hwkey, hperms⟩
    · exact absurd hread.1 hnot
    · refine .inl fun _ => ?_
      rw [hperms, ← hread.2 write hwrite hwkey]
      exact linkedBits_congr hkey hlink
  · rw [if_neg hon] at hread
    rcases hcases with ⟨_, rfl⟩ | ⟨write, hwrite, hwkey, _⟩
    · refine .inr (.inr ⟨g', hin, rfl, rfl, fun hright h => ?_⟩)
      exact (linkedBits_put_of_ne hon).trans (hright h)
    · exact absurd (List.mem_map.mpr ⟨write, hwrite, hwkey⟩) hread

/-- A role is deleted: its grants follow none any more. -/
theorem owed_deletingRole {id : ℕ} {c : Caller} {rid : ℕ} (ho : Owed w)
    (hf : ⟨id, c, .deletingRole rid⟩ ∈ w.flights.all) :
    Owed ⟨(next w.db c (.deletingRole rid)).1,
      w.flights.goOn id (next w.db c (.deletingRole rid)).2⟩ := by
  refine owed_goOn ho hf fun g' hg' => ?_
  simp only [next] at hg' ⊢
  split at hg'
  next hown =>
    rw [if_pos hown]
    rcases updateWhere_cases hg' with ⟨hin, hne⟩ | ⟨old, _, _, rfl⟩
    · refine .inr (.inr ⟨g', hin, rfl, rfl, fun hright h => ?_⟩)
      exact (linkedBits_delete_of_ne (of_decide_eq_false hne)).trans (hright h)
    · exact .inl fun h => absurd rfl h
  next hown =>
    rw [if_neg hown]
    exact .inr (.inr ⟨g', hg', rfl, rfl, fun h => h⟩)

/-- One grant of a relink is written; the others are still to be. -/
theorem owed_rewriting {id : ℕ} {c : Caller} {write : (ℕ × ℕ) × PermSet}
    {rest : List ((ℕ × ℕ) × PermSet)} (ho : Owed w)
    (hf : ⟨id, c, .rewriting (write :: rest)⟩ ∈ w.flights.all)
    (hg : UpToDate w.db (.rewriting (write :: rest))) :
    Owed ⟨(next w.db c (.rewriting (write :: rest))).1,
      w.flights.goOn id (next w.db c (.rewriting (write :: rest))).2⟩ := by
  refine owed_goOn ho hf fun g' hg' => ?_
  obtain ⟨g, hin, hkey, hlink, hcases⟩ := rewrite_cases hg'
  by_cases hnone : g.accessRole = none
  · exact .inl fun h => absurd (hlink.trans hnone) h
  rcases hcases with ⟨hnot, rfl⟩ | ⟨write', hwrite, hwkey, hperms⟩
  · by_cases hrest : g'.key ∈ rest.map Prod.fst
    · exact .inr (.inl ⟨_, rfl, decide_eq_true hrest⟩)
    · refine .inr (.inr ⟨g', hin, rfl, decide_eq_false fun hmem => ?_, fun h => h⟩)
      rcases List.mem_cons.mp hmem with heq | hmem
      · exact hnot (List.mem_singleton.mpr heq)
      · exact hrest hmem
  · obtain rfl := List.mem_singleton.mp hwrite
    refine .inl fun _ => ?_
    rw [hperms, ← hg write' rfl g hin hwkey.symm hnone]
    exact linkedBits_congr hkey hlink

/-- A statement keeps what is not right owed. -/
theorem owed_next (hw : Sound Tables Own w) (ho : Owed w) (hf : f ∈ w.flights.all)
    (hg : UpToDate w.db f.stage) :
    Owed ⟨(next w.db f.caller f.stage).1, w.flights.goOn f.id (next w.db f.caller f.stage).2⟩ := by
  obtain ⟨id, c, stage⟩ := f
  cases stage with
  | granting g domainLists =>
    refine owed_goOn ho hf fun g' hg' => ?_
    simp only [next] at hg' ⊢
    rcases writeGrant_cases w.db c g domainLists with heq | ⟨lists, heq⟩
    · rw [heq] at hg' ⊢
      exact .inr (.inr ⟨g', hg', rfl, rfl, fun h => h⟩)
    · rw [heq] at hg' ⊢
      rcases mem_put.mp hg' with rfl | ⟨hin, _⟩
      · exact .inl hg
      · exact .inr (.inr ⟨g', hin, rfl, rfl, fun h => h⟩)
  | savingRole sid permissions =>
    exact owed_goOn ho hf fun g hin => .inr (.inr ⟨g, hin, rfl, rfl, fun h => h⟩)
  | committing r writes => exact owed_committing ho hf hg
  | deletingRole rid => exact owed_deletingRole ho hf
  | settingRole user role =>
    refine owed_goOn ho hf fun g hin => ?_
    by_cases huser : g.user = user
    · exact .inr (.inl ⟨_, rfl, decide_eq_true huser⟩)
    · refine .inr (.inr ⟨g, hin, rfl, rfl, fun hright h => ?_⟩)
      rw [← hright h]
      exact linkedBits_of_same (targetRole_setRole_of_ne huser)
  | relinking user =>
    refine owed_goOn ho hf fun g hin => ?_
    by_cases hnone : g.accessRole = none
    · exact .inl fun h => absurd hnone h
    by_cases huser : g.user = user
    · refine .inr (.inl ⟨_, rfl, decide_eq_true ?_⟩)
      exact mem_relinked (hw.own _ hf) hin huser (hw.db.linked g hin hnone)
    · exact .inr (.inr ⟨g, hin, rfl, decide_eq_false huser, fun h => h⟩)
  | rewriting writes =>
    cases writes with
    | nil => exact owed_of_read ho hf fun g => by simp [owes]
    | cons write rest => exact owed_rewriting ho hf hg
  | _ => exact owed_of_read ho hf fun _ => rfl

/-- And so over any guarded step: whoever is lost owes nothing. -/
theorem owed_step {w' : World} {l : Label} (hw : Sound Tables Own w) (ho : Owed w)
    (hg : Guard w l) (hs : step w l = some w') : Owed w' := by
  cases l with
  | arrives caller stage =>
    obtain ⟨_, rfl⟩ := arrives_some hs
    intro g hin
    exact (ho g hin).imp_right fun ⟨f, hf, howes⟩ => ⟨f, Flights.mem_start.mpr (.inr hf), howes⟩
  | runs id env =>
    obtain ⟨f, hf, rfl, db', st, hnext, rfl⟩ := runs_some hs
    obtain ⟨rfl, rfl⟩ := Prod.mk.inj (Option.some.inj hnext)
    exact owed_next hw ho hf (hg f hf rfl)
  | lost id =>
    cases hs
    intro g hin
    rcases ho g hin with hright | ⟨f, hf, howes⟩
    · exact .inl hright
    · by_cases hid : f.id = id
      · exact .inl (hg f hf hid g hin howes)
      · exact .inr ⟨f, Flights.mem_drop.mpr ⟨hf, hid⟩, howes⟩
  | outside x =>
    cases hs
    intro g hin
    exact (ho g (grants_change x hin)).imp_left (right_change hw.db x)

end Owed

/-- A server with keys, where linked grants are right and no request is in flight. -/
def Start (w : World) : Prop :=
  w.flights.all = [] ∧ Tables w.db ∧ ∀ g ∈ w.db.projectGrants, Right w.db g

/-- What holds in every state of a guarded run. -/
structure Kept (w : World) : Prop where
  /-- The tables, and what requests refer to. -/
  sound : Sound Tables Own w
  /-- What is not right is owed. -/
  owed : Owed w

theorem kept_start {w : World} (h : Start w) : Kept w := by
  obtain ⟨hnone, htables, hright⟩ := h
  exact ⟨.of_idle htables hnone, fun g hin => .inl (hright g hin)⟩

theorem kept_step : Preserved step Guard Kept := fun _ _ _ hw hg hs =>
  ⟨sound_step hw.sound hg hs, owed_step hw.sound hw.owed hg hs⟩

/-- Where every write is of what still is so, and nobody who owes a grant is lost, every grant
that follows a role is what the role says, capped by the person's role, whenever no request is
in flight. -/
theorem linked_grants_follow {w : World} (hr : Reached Start step Guard w)
    (hidle : w.flights.all = []) : ∀ g ∈ w.db.projectGrants, g.accessRole ≠ none →
      linkedBits w.db w.db.accessRoles g = some g.permissions := by
  intro g hin
  rcases (hr.invariant Kept (fun _ => kept_start) kept_step).owed g hin with
    hright | ⟨f, hf, _⟩
  · exact hright
  · rw [hidle] at hf
    cases hf

/-- An owner and a manager, whose grant follows a role. -/
def office : World where
  db :=
    { now := 0, users := 2, orgs := [⟨7, 1⟩], members := [⟨0, 7, .owner⟩, ⟨1, 7, .manager⟩],
      sessions := [], projects := [⟨10, 7, false⟩], profiles := [],
      projectGrants := [⟨10, 1, PermSet.fromIter [.view, .manageAccess], none, [], some 20⟩],
      profileGrants := [], accessRoles := [⟨20, 7, PermSet.fromIter [.view, .manageAccess]⟩],
      domainLists := [], locks := [], fresh := 30 }
  flights := .none

theorem start_office : Start office := by
  refine ⟨rfl, ⟨?_, ?_, ?_, ?_⟩, ?_⟩
  · unfold KeyUnique
    decide
  · decide
  · decide
  · decide
  · decide

/-- The owner. -/
def owner : Caller := ⟨0, 7, .owner⟩

/-- So many statements of a request. -/
def asks (id n : ℕ) : List Label := List.replicate n (.runs id ())

/-- The owner edits the role, and makes the manager a member. -/
def edits : List Label :=
  .arrives owner (.arrived (.upsertAccessRole (some 20) [.launch, .manageAccess])) :: asks 0 4 ++
    .arrives owner (.arrived (.setMemberRole 1 .member)) :: asks 1 6

/-- The grant is the new role, without what a member may not have. -/
theorem linked_grants_follow_edits : ∃ w', run step office edits = some w' ∧
    w'.db.projectGrants = [⟨10, 1, PermSet.fromIter [.view, .launch], none, [], some 20⟩] ∧
    ∀ g ∈ w'.db.projectGrants, g.accessRole ≠ none →
      linkedBits w'.db w'.db.accessRoles g = some g.permissions := by
  have hrun : ((run step office edits).map fun w' => (w'.flights.all, w'.db.projectGrants)) =
      some ([], [⟨10, 1, PermSet.fromIter [.view, .launch], none, [], some 20⟩]) := by
    decide
  obtain ⟨w', h, hw'⟩ := Option.map_eq_some_iff.mp hrun
  obtain ⟨hidle, hgrants⟩ := Prod.mk.inj hw'
  exact ⟨w', h, hgrants, linked_grants_follow
    ((Reached.start start_office).run edits (by decide) h) hidle⟩

/-- A grant reads the boxes of the role, the role is edited, and the grant writes what it
read. -/
def overtaken : List Label :=
  .arrives owner (.arrived (.grantAccess ⟨10, 1, [], none, none, none⟩)) :: asks 0 5 ++
    .arrives owner (.arrived (.upsertAccessRole (some 20) [.launch])) :: asks 1 4 ++ asks 0 2

/-- It keeps what the role no longer says. -/
theorem grant_keeps_old_role : ¬ ∀ w, Reached Start step anyStep w → w.flights.all = [] →
    ∀ g ∈ w.db.projectGrants, g.accessRole ≠ none →
      linkedBits w.db w.db.accessRoles g = some g.permissions := by
  intro hall
  have hrun : ((run step office overtaken).map fun w' => (w'.flights.all,
      decide (∀ g ∈ w'.db.projectGrants, Right w'.db g))) = some ([], false) := by
    decide
  obtain ⟨w', h, hw'⟩ := Option.map_eq_some_iff.mp hrun
  obtain ⟨hidle, hwrong⟩ := Prod.mk.inj hw'
  exact of_decide_eq_false hwrong
    (hall w' ((Reached.start start_office).run_any overtaken h) hidle)

end FuryBrowser.LinkedGrants
