import FuryBrowser.TeamSteps

/-!
# What a request does to its own caller

A share is capped by what the sharer holds, and nobody shares with themselves. A
grant is capped by the role of whom it is for, and nothing keeps a manager from
granting to themselves: they get every box their role allows, and drop the domain
lists that were imposed on them. Here is exactly when a request of somebody who is
neither owner nor admin does that, run by itself from any state.
-/

namespace FuryBrowser.OwnAccess

open GuardedRuns RowTable Permissions TeamTables TeamRequests TeamRuns TeamSteps
open OrgKeys (Role)

/-- Requests that write permissions, roles or domain lists. -/
def writesPermissions : Request → Bool
  | .grantAccess .. | .shareProfile .. | .setMemberRole .. | .upsertAccessRole ..
  | .deleteAccessRole .. | .upsertDomainList .. | .deleteDomainList .. => true
  | _ => false

/-- Somebody may do no more than before, and is refused no fewer hosts. -/
structure NotEscalated (db db' : Db) (user : ℕ) : Prop where
  project : ∀ project, (db'.permissionsFor user project).Within (db.permissionsFor user project)
  profile : ∀ profile,
    (db'.permissionsForProfile user profile).Within (db.permissionsForProfile user profile)
  hosts : ∀ profile host, blocks (db.domainListsFor user profile) host = true →
    blocks (db'.domainListsFor user profile) host = true

/-- Among the boxes is one the caller's role allows and the caller lacks. -/
def AsksMore (db : Db) (c : Caller) (project : ℕ) (asked : PermSet) : Prop :=
  ∃ p : Perm, asked.has p = true ∧ (roleCeiling c.role).has p = true ∧
    (db.permissionsFor c.user project).has p = false

/-- These lists let a host pass that is refused to the caller in the project. -/
def Relaxes (db : Db) (c : Caller) (project : ℕ) (ids : List ℕ) : Prop :=
  ∃ profile p host, db.profile profile = some p ∧ p.project = project ∧
    blocks (db.domainListsFor c.user profile) host = true ∧
    blocks (db.domainLists.filter fun l => l.id ∈ ids) host = false

/-- The request is a grant to the caller, of a project where they manage access. It
names lists and a role that exist and waits for no rotation that removes the caller.
It asks for more than they have there and has not expired, or for lists that let
more pass. -/
def Escalates (w : World) (c : Caller) (token : ℕ) : Request → Prop
  | .grantAccess project user permissions expires domainLists accessRole =>
    user = c.user ∧ mayGrant w.db c project = true ∧
    domainLists.all (listsKnown w.db c) = true ∧
    w.sessionHeld token = false ∧ w.grantHeld project user = false ∧
    ∃ asked, requested w.db c (grantLink w.db project user accessRole) permissions = some asked ∧
      ((w.db.live expires = true ∧ AsksMore w.db c project asked) ∨
        ∃ ids ∈ domainLists, Relaxes w.db c project ids)
  | _ => False

section Tables

variable {db db' : Db} {user project profile : ℕ}

/-- Permissions on a project are read from these. -/
theorem permissionsFor_congr
    (hgrant : db'.projectGrant project user = db.projectGrant project user)
    (hprojects : db'.projects = db.projects) (hmembers : db'.members = db.members)
    (hnow : db'.now = db.now) :
    db'.permissionsFor user project = db.permissionsFor user project := by
  simp only [Db.permissionsFor, Db.project, Db.member, Db.live, hprojects, hmembers, hnow, hgrant]

theorem direct_congr (hnow : db'.now = db.now)
    (hgrant : db'.profileGrant profile user = db.profileGrant profile user) :
    db'.direct user profile = db.direct user profile := by
  simp only [Db.direct, Db.live, hnow, hgrant]

/-- A grant to the caller, as it is written. -/
theorem projectGrant_put {g : ProjectGrant} :
    (execute db (.putProjectGrant g)).projectGrant project user =
      if (project, user) = g.key then some g else db.projectGrant project user := by
  split
  · rename_i hkey
    unfold Db.projectGrant
    rw [hkey]
    exact lookup_put_self
  · rename_i hkey
    exact lookup_put_of_ne hkey

theorem NotEscalated.same (hprojects : db'.projects = db.projects)
    (hmembers : db'.members = db.members) (hnow : db'.now = db.now)
    (hprofiles : db'.profiles = db.profiles) (hlists : db'.domainLists = db.domainLists)
    (hgrant : ∀ project, db'.projectGrant project user = db.projectGrant project user)
    (hshare : ∀ profile, db'.profileGrant profile user = db.profileGrant profile user) :
    NotEscalated db db' user := by
  have hproject : ∀ project, db'.permissionsFor user project = db.permissionsFor user project :=
    fun project => permissionsFor_congr (hgrant project) hprojects hmembers hnow
  refine ⟨fun project => ?_, fun profile => ?_, fun profile host h => ?_⟩
  · rw [hproject]
    exact PermSet.Within.refl _
  · simp only [Db.permissionsForProfile, Db.liveProfile, Db.profile, hprofiles, hproject,
      direct_congr hnow (hshare profile)]
    exact PermSet.Within.refl _
  · simpa only [Db.domainListsFor, Db.profile, hprofiles, hlists, hgrant] using h

/-- What a grant makes of somebody's permissions on its project. -/
theorem permissionsFor_put {g : ProjectGrant} {p : Project} {m : Member}
    (hp : db.project project = some p) (hm : db.member user p.org = some m)
    (hkey : g.key = (project, user)) :
    (execute db (.putProjectGrant g)).permissionsFor user project =
      effective m.role (((some g).filter fun g => db.live g.expires).map
        ProjectGrant.permissions) := by
  have hgrant : (execute db (.putProjectGrant g)).projectGrant project user = some g := by
    rw [projectGrant_put, if_pos hkey.symm]
  have hproject : (execute db (.putProjectGrant g)).project project = some p := hp
  have hmember : (execute db (.putProjectGrant g)).member user p.org = some m := hm
  simp only [Db.permissionsFor, hproject, hmember, hgrant]
  rfl

/-- What `grant_access` has found when it writes. -/
theorem grantAccess_some {c : Caller} {permissions : List Perm} {expires : Option ℕ}
    {domainLists : Option (List ℕ)} {accessRole : Option (Option ℕ)} {g : ProjectGrant}
    (h : grantAccess db c project user permissions expires domainLists accessRole = some g) :
    mayGrant db c project = true ∧ domainLists.all (listsKnown db c) = true ∧
      ∃ p m asked, db.project project = some p ∧ db.member user p.org = some m ∧
        requested db c (grantLink db project user accessRole) permissions = some asked ∧
        g = ⟨project, user, asked.intersect (roleCeiling m.role), expires, domainLists.getD [],
          grantLink db project user accessRole⟩ := by
  simp only [grantAccess, Option.ite_none_right_eq_some, Bool.and_eq_true] at h
  obtain ⟨⟨hmay, hlists⟩, h⟩ := h
  obtain ⟨p, hp, h⟩ := Option.bind_eq_some_iff.mp h
  obtain ⟨m, hm, h⟩ := Option.bind_eq_some_iff.mp h
  obtain ⟨asked, hasked, rfl⟩ := Option.map_eq_some_iff.mp h
  exact ⟨hmay, hlists, p, m, asked, hp, hm, hasked, rfl⟩

theorem NotEscalated.trans {db'' : Db} (h : NotEscalated db db' user)
    (h' : NotEscalated db' db'' user) : NotEscalated db db'' user :=
  ⟨fun project => (h'.project project).trans (h.project project),
    fun profile => (h'.profile profile).trans (h.profile profile),
    fun profile host hblocks => h'.hosts profile host (h.hosts profile host hblocks)⟩

end Tables

section Granted

variable {db : Db} {c : Caller} {project : ℕ} {p : Project} {m : Member} {asked : PermSet}
  {g : ProjectGrant} {ids : Option (List ℕ)}

/-- The row that a grant to the caller themselves writes. -/
def ownGrant (db : Db) (c : Caller) (project : ℕ) (asked : PermSet) (expires : Option ℕ)
    (ids : Option (List ℕ)) (link : Option ℕ) : ProjectGrant :=
  ⟨project, c.user, asked.intersect (roleCeiling c.role), expires,
    ids.getD (((db.projectGrant project c.user).map ProjectGrant.domainLists).getD []), link⟩

/-- With it, somebody who is neither owner nor admin has what was asked for and their
role allows. -/
theorem has_of_ownGrant {expires : Option ℕ} {link : Option ℕ} {q : Perm}
    (hplain : hasImplicitProjectAccess c.role = false) (hp : db.project project = some p)
    (hm : db.member c.user p.org = some m) (hrole : m.role = c.role) :
    ((execute db (.putProjectGrant
        (ownGrant db c project asked expires ids link))).permissionsFor c.user project).has q =
      (db.live expires && asked.has q && (roleCeiling c.role).has q) := by
  rw [permissionsFor_put hp hm rfl, hrole]
  by_cases hlive : db.live expires = true
  · simp [effective, hplain, ownGrant, Option.filter, hlive]
  · simp [effective, hplain, ownGrant, Option.filter, hlive]

/-- The lists that are then imposed on them. -/
theorem domainListsFor_ownGrant {expires : Option ℕ} {link : Option ℕ} {profile : ℕ}
    {row : Profile} (hrow : db.profile profile = some row) (hproject : row.project = project) :
    (execute db (.putProjectGrant
        (ownGrant db c project asked expires ids link))).domainListsFor c.user profile =
      match ids with
      | some ids => db.domainLists.filter fun l => l.id ∈ ids
      | none => db.domainListsFor c.user profile := by
  have hprofile : (execute db (.putProjectGrant
      (ownGrant db c project asked expires ids link))).profile profile = some row := hrow
  have hgrant : (execute db (.putProjectGrant
      (ownGrant db c project asked expires ids link))).projectGrant row.project c.user =
      some (ownGrant db c project asked expires ids link) := by
    rw [projectGrant_put, hproject]
    exact if_pos rfl
  simp only [Db.domainListsFor, hprofile, hrow, Option.bind_some, hgrant]
  rw [hproject]
  cases ids with
  | some ids => rfl
  | none =>
    cases hold : db.projectGrant project c.user with
    | none => simp [ownGrant, hold]
    | some old =>
      simp only [ownGrant, hold, Option.map_some, Option.getD_some, Option.getD_none]
      rfl

/-- A grant to the caller that asks for nothing more and relaxes nothing. -/
theorem notEscalated_ownGrant {expires : Option ℕ} {link : Option ℕ}
    (hplain : hasImplicitProjectAccess c.role = false) (hp : db.project project = some p)
    (hm : db.member c.user p.org = some m) (hrole : m.role = c.role)
    (hmore : db.live expires = true → ¬ AsksMore db c project asked)
    (hrelax : ∀ l ∈ ids, ¬ Relaxes db c project l) :
    NotEscalated db (execute db (.putProjectGrant
      (ownGrant db c project asked expires ids link))) c.user := by
  have hproject : ∀ other, ((execute db (.putProjectGrant
      (ownGrant db c project asked expires ids link))).permissionsFor c.user other).Within
        (db.permissionsFor c.user other) := by
    intro other
    by_cases hother : other = project
    · subst hother
      refine within_of_has permissionsFor_within_all fun q hq => ?_
      rw [has_of_ownGrant hplain hp hm hrole] at hq
      simp only [Bool.and_eq_true] at hq
      by_contra hlacks
      exact hmore hq.1.1 ⟨q, hq.1.2, hq.2, by simpa using hlacks⟩
    · have hgrant : (execute db (.putProjectGrant
          (ownGrant db c project asked expires ids link))).projectGrant other c.user =
          db.projectGrant other c.user := by
        rw [projectGrant_put, if_neg]
        exact fun heq => hother (congrArg Prod.fst heq)
      rw [permissionsFor_congr hgrant rfl rfl rfl]
      exact PermSet.Within.refl _
  refine ⟨hproject, fun profile => ?_, fun profile host hblocks => ?_⟩
  · have hlive : (execute db (.putProjectGrant
        (ownGrant db c project asked expires ids link))).liveProfile profile =
        db.liveProfile profile := rfl
    simp only [Db.permissionsForProfile, hlive]
    split
    · exact PermSet.Within.refl _
    · rename_i row _
      exact ((hproject row.project).trans within_or_left).or within_or_right
  · cases hrow : db.profile profile with
    | none =>
      have hprofile : (execute db (.putProjectGrant
          (ownGrant db c project asked expires ids link))).profile profile = none := hrow
      simp only [Db.domainListsFor, hprofile, hrow, Option.bind_none] at hblocks ⊢
      exact hblocks
    | some row =>
      by_cases hin : row.project = project
      · rw [domainListsFor_ownGrant hrow hin]
        cases ids with
        | none => exact hblocks
        | some l =>
          by_contra hpasses
          exact hrelax l rfl ⟨profile, row, host, hrow, hin, hblocks, by simpa using hpasses⟩
      · have hsame : (execute db (.putProjectGrant
            (ownGrant db c project asked expires ids link))).domainListsFor c.user profile =
            db.domainListsFor c.user profile := by
          have hprofile : (execute db (.putProjectGrant
              (ownGrant db c project asked expires ids link))).profile profile = some row := hrow
          simp only [Db.domainListsFor, hprofile, hrow, Option.bind_some]
          rw [projectGrant_put, if_neg]
          · rfl
          · exact fun heq => hin (congrArg Prod.fst heq)
        rw [hsame]
        exact hblocks

end Granted

section Alone

variable {w w₁ w₂ w₃ : World} {c : Caller} {token : ℕ} {req : Request}

/-- The tables once the caller's session has slid. -/
def touched (w : World) (token : ℕ) : Db := execute w.db (.touchSession token)

/-- What the request, run by itself, can have done. -/
inductive Outcome (w : World) (c : Caller) (token : ℕ) (req : Request) (db' : Db) : Prop where
  | start (h : db' = w.db)
  | slid (h : db' = touched w token)
  | shared {g : ProfileGrant} (hg : checked w.db c req = some (.sharing g))
    (h : db' = execute (touched w token) (writeShare (touched w token) c g))
  | granted {g : ProjectGrant} {lists : Option (List ℕ)}
    (hg : checked w.db c req = some (.granting g lists)) (hsession : w.sessionHeld token = false)
    (hheld : w.grantHeld g.project g.user = false)
    (h : db' = execute (touched w token) (writeGrant (touched w token) c g lists))

/-- How far the request has come, and that nothing else has moved. -/
structure Lone (w : World) (c : Caller) (token : ℕ) (req : Request) (w₂ : World) : Prop where
  /-- Requests have ids of their own. -/
  numbered : Numbered w₂
  /-- The other requests are where they were. -/
  others : ∀ f ∈ w.flights, f ∈ w₂.flights
  /-- The request is before its session, its checks or its write. -/
  mine : ∀ f ∈ w₂.flights, f.id = w.nextId → f.caller = c ∧
    ((f.stage = .arrived token req ∧ w₂.db = w.db) ∨
      (w.sessionHeld token = false ∧ w₂.db = touched w token ∧
        (f.stage = .begun req ∨ checked w.db c req = some f.stage)))
  outcome : Outcome w c token req w₂.db

/-- Whoever is neither owner nor admin comes to write a grant or a share, if anything. -/
theorem stage_of_checked {db : Db} {stage : Stage} (hplain : c.administers = false)
    (hreq : writesPermissions req = true) (h : checked db c req = some stage) :
    (∃ g lists, stage = .granting g lists) ∨ ∃ g, stage = .sharing g := by
  cases req with
  | grantAccess project user permissions expires domainLists accessRole =>
    obtain ⟨g, _, rfl⟩ := Option.map_eq_some_iff.mp h
    exact .inl ⟨g, domainLists, rfl⟩
  | shareProfile profile user permissions expires generation =>
    obtain ⟨g, _, rfl⟩ := Option.map_eq_some_iff.mp h
    exact .inr ⟨g, rfl⟩
  | setMemberRole user role => simp [checked, setMemberRole, hplain] at h
  | upsertAccessRole id permissions | deleteAccessRole id | upsertDomainList id kind domains
  | deleteDomainList id => simp [checked, hplain] at h
  | _ => cases hreq

theorem checked_touched (hreq : writesPermissions req = true) :
    checked (touched w token) c req = checked w.db c req := by
  cases req with
  | grantAccess | shareProfile | setMemberRole | upsertAccessRole | deleteAccessRole
  | upsertDomainList | deleteDomainList => rfl
  | _ => cases hreq

/-- A row that is held stays held while only the request moves. -/
theorem Lone.free (h : Lone w c token req w₂)
    {p : Caller → RotateRequest → List Phase → Pending → Bool}
    (hfree : w₂.rotationAny p = false) : w.rotationAny p = false := by
  refine List.any_eq_false.mpr fun f hf => ?_
  exact List.any_eq_false.mp hfree f (h.others f hf)

theorem lone_arrives (hn : Numbered w) (hc : callerOf w.db token = some c)
    (ha : arrives w token req = some w₁) : Lone w c token req w₁ := by
  have hn₁ : Numbered w₁ :=
    numbered_step hn trivial (show step w (.arrives token req) = some w₁ from ha)
  simp only [arrives, hc, Option.map_some, Option.some.injEq] at ha
  subst ha
  refine ⟨hn₁, fun f hf => List.mem_cons_of_mem _ hf, fun f hf hid => ?_, .start rfl⟩
  rcases List.mem_cons.mp hf with rfl | hin
  · exact ⟨rfl, .inl ⟨rfl, rfl⟩⟩
  · exact absurd hid (Nat.ne_of_lt (hn.fresh f hin))

theorem lone_step (hplain : c.administers = false) (hreq : writesPermissions req = true)
    (hn : Numbered w) (h : Lone w c token req w₂) (hs : step w₂ (.runs w.nextId) = some w₃) :
    Lone w c token req w₃ := by
  have hn₃ : Numbered w₃ := numbered_step h.numbered trivial hs
  obtain ⟨f, hf, hid, s, st, hnext, rfl⟩ := runs_some hs
  obtain ⟨hcaller, hstage⟩ := h.mine f hf hid
  have hothers : ∀ f ∈ w.flights, f ∈ w₂.goOn w.nextId st := by
    intro g hg
    have hne : ¬ g.id = w.nextId := Nat.ne_of_lt (hn.fresh g hg)
    cases st with
    | none => exact mem_deleteWhere.mpr ⟨h.others g hg, by simpa using hne⟩
    | some stage => exact mem_updateWhere_of_not (h.others g hg) (by simpa using hne)
  have hmine : ∀ f' ∈ w₂.goOn w.nextId st, f'.id = w.nextId → ∃ stage, st = some stage ∧
      f' = { f with stage := stage } := by
    intro f' hf' hid'
    rcases mem_goOn h.numbered hf hid hf' with ⟨_, hne⟩ | hnew
    · exact absurd hid' hne
    · exact hnew
  rcases hstage with ⟨harrived, hdb⟩ | ⟨hsession, hdb, hbegun | hchecked⟩
  · -- Its session slides.
    simp only [next, harrived, Option.ite_none_left_eq_some, Option.some.injEq,
      Prod.mk.injEq] at hnext
    obtain ⟨hwait, rfl, rfl⟩ := hnext
    have hfree : w.sessionHeld token = false := h.free (Bool.eq_false_iff.mpr hwait)
    have hslid : execute w₂.db (.touchSession token) = touched w token := by rw [hdb]; rfl
    refine ⟨hn₃, hothers, fun f' hf' hid' => ?_, .slid hslid⟩
    obtain ⟨stage, hst, rfl⟩ := hmine f' hf' hid'
    cases hst
    exact ⟨hcaller, .inr ⟨hfree, hslid, .inl rfl⟩⟩
  · -- It is checked.
    simp only [next, hbegun, Option.some.injEq, Prod.mk.injEq] at hnext
    obtain ⟨rfl, hst⟩ := hnext
    refine ⟨hn₃, hothers, fun f' hf' hid' => ?_, .slid hdb⟩
    obtain ⟨stage, rfl, rfl⟩ := hmine f' hf' hid'
    rw [hdb, hcaller, checked_touched hreq] at hst
    exact ⟨hcaller, .inr ⟨hsession, hdb, .inr hst⟩⟩
  · -- It writes its grant or its share, and is over.
    rcases stage_of_checked hplain hreq hchecked with ⟨g, lists, hg⟩ | ⟨g, hg⟩
    · simp only [next, hg, Option.ite_none_left_eq_some, Option.some.injEq,
        Prod.mk.injEq] at hnext
      obtain ⟨hwait, rfl, rfl⟩ := hnext
      have hfree : w.grantHeld g.project g.user = false := h.free (Bool.eq_false_iff.mpr hwait)
      refine ⟨hn₃, hothers, fun f' hf' hid' => ?_, ?_⟩
      · obtain ⟨_, hst, _⟩ := hmine f' hf' hid'
        cases hst
      · exact .granted (hg ▸ hchecked) hsession hfree (by rw [hdb, hcaller])
    · simp only [next, hg, Option.ite_none_left_eq_some, Option.some.injEq,
        Prod.mk.injEq] at hnext
      obtain ⟨_, rfl, rfl⟩ := hnext
      refine ⟨hn₃, hothers, fun f' hf' hid' => ?_, ?_⟩
      · obtain ⟨_, hst, _⟩ := hmine f' hf' hid'
        cases hst
      · exact .shared (hg ▸ hchecked) (by rw [hdb, hcaller])

/-- The steps of one request alone. -/
def onlyRuns (id : ℕ) (_ : World) (a : Label) : Prop := a = .runs id

instance (id : ℕ) : DecidableRel (onlyRuns id) := fun _ a =>
  inferInstanceAs (Decidable (a = .runs id))

theorem lone_reached (hplain : c.administers = false) (hreq : writesPermissions req = true)
    (hn : Numbered w) (hc : callerOf w.db token = some c) (ha : arrives w token req = some w₁)
    (hr : Reached (· = w₁) step (onlyRuns w.nextId) w₂) : Lone w c token req w₂ := by
  refine hr.invariant (Lone w c token req) (fun _ hi => hi ▸ lone_arrives hn hc ha) ?_
  intro w₂ a w₃ h honly hs
  cases honly
  exact lone_step hplain hreq hn h hs

/-- What a request that is about to share has asked. -/
theorem asked_of_sharing {db : Db} {g : ProfileGrant} (h : checked db c req = some (.sharing g)) :
    ∃ profile user permissions expires generation,
      req = .shareProfile profile user permissions expires generation ∧
        shareProfile db c profile user permissions expires generation = some g := by
  cases req with
  | shareProfile profile user permissions expires generation =>
    obtain ⟨g', hg, heq⟩ := Option.map_eq_some_iff.mp h
    cases heq
    exact ⟨profile, user, permissions, expires, generation, rfl, hg⟩
  | heartbeat | releaseLock => cases h
  | grantAccess => simp [checked] at h
  | _ => simp [checked] at h

/-- What a request that is about to grant has asked. -/
theorem asked_of_granting {db : Db} {g : ProjectGrant} {lists : Option (List ℕ)}
    (h : checked db c req = some (.granting g lists)) :
    ∃ project user permissions expires accessRole,
      req = .grantAccess project user permissions expires lists accessRole ∧
        grantAccess db c project user permissions expires lists accessRole = some g := by
  cases req with
  | grantAccess project user permissions expires domainLists accessRole =>
    obtain ⟨g', hg, heq⟩ := Option.map_eq_some_iff.mp h
    cases heq
    exact ⟨project, user, permissions, expires, accessRole, rfl, hg⟩
  | heartbeat | releaseLock => cases h
  | _ => simp [checked] at h

theorem shared_with_other {db : Db} {profile user : ℕ} {permissions : List Perm}
    {expires : Option ℕ} {generation : ℕ} {g : ProfileGrant}
    (h : shareProfile db c profile user permissions expires generation = some g) :
    g.user ≠ c.user := by
  simp only [shareProfile, Option.ite_none_right_eq_some, Option.some.injEq, Bool.and_eq_true,
    decide_eq_true_eq] at h
  obtain ⟨⟨⟨_, hother⟩, _⟩, rfl⟩ := h
  exact hother

/-- A caller's role is the one in their row. -/
theorem role_of_caller {db : Db} {org : ℕ} {m : Member} (hc : callerOf db token = some c)
    (hm : db.member c.user org = some m) : m.role = c.role := by
  obtain ⟨session, _, hc⟩ := Option.bind_eq_some_iff.mp hc
  obtain ⟨row, hrow, rfl⟩ := Option.map_eq_some_iff.mp hc
  have huser : row.user = session.user := (lookup_some hrow).2
  have hlookup := (Option.filter_eq_some_iff.mp hm).1
  have hsame : row = m := Option.some.inj ((huser ▸ hrow).symm.trans hlookup)
  rw [hsame]

theorem implicit_of_administers (hplain : c.administers = false) :
    hasImplicitProjectAccess c.role = false := by
  unfold Caller.administers at hplain
  cases hrole : c.role with
  | owner | admin => simp [hrole] at hplain
  | manager | member => rfl

/-- What the request has done by itself, when it is none of those that escalate. -/
theorem notEscalated_outcome {db' : Db} (hplain : c.administers = false)
    (hc : callerOf w.db token = some c) (ho : Outcome w c token req db')
    (hnot : ¬ Escalates w c token req) : NotEscalated w.db db' c.user := by
  have hslid : NotEscalated w.db (touched w token) c.user :=
    .same rfl rfl rfl rfl rfl (fun _ => rfl) fun _ => rfl
  cases ho with
  | start h => exact h ▸ .same rfl rfl rfl rfl rfl (fun _ => rfl) fun _ => rfl
  | slid h => exact h ▸ hslid
  | @shared g hg h =>
    subst h
    obtain ⟨_, _, _, _, _, rfl, hshare⟩ := asked_of_sharing hg
    unfold writeShare
    split
    · have hother : g.user ≠ c.user := shared_with_other hshare
      refine hslid.trans (.same rfl rfl rfl rfl rfl (fun _ => rfl) fun profile => ?_)
      exact lookup_put_of_ne fun heq => hother (congrArg Prod.snd heq).symm
    · exact hslid
  | @granted g lists hg hsession hheld h =>
    subst h
    obtain ⟨project, user, permissions, expires, link, rfl, hgrant⟩ := asked_of_granting hg
    obtain ⟨hmay, hlists, p, m, asked, hp, hm, hasked, rfl⟩ := grantAccess_some hgrant
    unfold writeGrant
    split
    · by_cases hself : user = c.user
      · subst hself
        have hrole : m.role = c.role := role_of_caller hc hm
        rw [hrole]
        refine hslid.trans
          (notEscalated_ownGrant (implicit_of_administers hplain) hp hm hrole ?_ ?_)
        · exact fun hlive hmore => hnot
            ⟨rfl, hmay, hlists, hsession, hheld, asked, hasked, .inl ⟨hlive, hmore⟩⟩
        · exact fun ids hids hrelax => hnot
            ⟨rfl, hmay, hlists, hsession, hheld, asked, hasked, .inr ⟨ids, hids, hrelax⟩⟩
      · refine hslid.trans (.same rfl rfl rfl rfl rfl (fun other => ?_) fun _ => rfl)
        exact lookup_put_of_ne fun heq => hself (congrArg Prod.snd heq).symm
    · exact hslid

end Alone

section Placed

variable {w : World} {c : Caller} {db : Db} {stage stage' : Stage} {s : Statement}

/-- The state of a request that moves alone. -/
def placed (w : World) (c : Caller) (db : Db) (stage : Stage) : World :=
  ⟨db, ⟨w.nextId, c, stage⟩ :: w.flights, w.nextId + 1⟩

/-- It waits for the others' rotations only. -/
theorem rotationAny_placed {p : Caller → RotateRequest → List Phase → Pending → Bool}
    (hstage : stage.rotation = none) : (placed w c db stage).rotationAny p = w.rotationAny p := by
  simp [World.rotationAny, placed, hstage]

theorem lookup_placed :
    lookup Flight.id (placed w c db stage).flights w.nextId = some ⟨w.nextId, c, stage⟩ := by
  simp [lookup, placed]

theorem runs_placed (hn : Numbered w)
    (h : next (placed w c db stage) ⟨w.nextId, c, stage⟩ = some (s, some stage')) :
    runs (placed w c db stage) w.nextId = some (placed w c (execute db s) stage') := by
  have hothers : updateWhere (fun f => f.id = w.nextId)
      (fun f : Flight => { f with stage := stage' }) w.flights = w.flights := by
    refine (List.map_congr_left fun f hf => ?_).trans (List.map_id _)
    have hne : f.id ≠ w.nextId := Nat.ne_of_lt (hn.fresh f hf)
    simp [hne]
  have hflights : (placed w c db stage).goOn w.nextId (some stage') =
      (placed w c db stage').flights := by
    have hcons : (placed w c db stage).goOn w.nextId (some stage') =
        ⟨w.nextId, c, stage'⟩ :: updateWhere (fun f => f.id = w.nextId)
          (fun f : Flight => { f with stage := stage' }) w.flights := by
      simp [World.goOn, updateWhere, placed]
    rw [hcons, hothers]
    rfl
  simp only [runs, lookup_placed, Option.bind_some, h, Option.map_some, hflights]
  rfl

theorem runs_placed_last
    (h : next (placed w c db stage) ⟨w.nextId, c, stage⟩ = some (s, none)) :
    ∃ w₂, runs (placed w c db stage) w.nextId = some w₂ ∧ w₂.db = execute db s := by
  simp only [runs, lookup_placed, Option.bind_some, h, Option.map_some]
  exact ⟨_, rfl, rfl⟩

end Placed

section Escalated

variable {w w₁ : World} {c : Caller} {token : ℕ}

/-- A grant that no rotation stops, run to its end: the session slides, the checks
pass, and the row is written. -/
theorem grants_alone {req : Request} {g : ProjectGrant} {lists : Option (List ℕ)}
    (hn : Numbered w) (hreq : writesPermissions req = true) (hc : callerOf w.db token = some c)
    (ha : arrives w token req = some w₁) (hsession : w.sessionHeld token = false)
    (hheld : w.grantHeld g.project g.user = false)
    (hg : checked w.db c req = some (.granting g lists)) :
    ∃ w₂, Reached (· = w₁) step (onlyRuns w.nextId) w₂ ∧
      w₂.db = execute (touched w token) (writeGrant (touched w token) c g lists) := by
  have hw₁ : w₁ = placed w c w.db (.arrived token req) := by
    simp only [arrives, hc, Option.map_some, Option.some.injEq] at ha
    exact ha.symm
  have harrived : next (placed w c w.db (.arrived token req)) ⟨w.nextId, c, .arrived token req⟩ =
      some (.touchSession token, some (.begun req)) := by
    have hfree : (placed w c w.db (.arrived token req)).sessionHeld token = false :=
      (rotationAny_placed rfl).trans hsession
    simp [next, hfree]
  have hbegun : next (placed w c (touched w token) (.begun req)) ⟨w.nextId, c, .begun req⟩ =
      some (.nothing, some (.granting g lists)) := by
    have hsame : checked (touched w token) c req = some (.granting g lists) :=
      (checked_touched hreq).trans hg
    exact congrArg (fun st => some (Statement.nothing, st)) hsame
  have hgranting : next (placed w c (touched w token) (.granting g lists))
      ⟨w.nextId, c, .granting g lists⟩ =
        some (writeGrant (touched w token) c g lists, none) := by
    have hfree : (placed w c (touched w token) (.granting g lists)).grantHeld g.project g.user =
        false := (rotationAny_placed rfl).trans hheld
    simp only [next, hfree]
    rfl
  obtain ⟨w₂, hlast, hdb⟩ := runs_placed_last hgranting
  have hstart : Reached (· = w₁) step (onlyRuns w.nextId) (placed w c w.db (.arrived token req)) :=
    .start hw₁.symm
  exact ⟨w₂, ((hstart.next rfl (runs_placed hn harrived)).next rfl
    (runs_placed hn hbegun)).next rfl hlast, hdb⟩

/-- A grant to the caller is written as they asked. -/
theorem writeGrant_own {db : Db} {project : ℕ} {asked : PermSet} {expires : Option ℕ}
    {domainLists : Option (List ℕ)} {accessRole : Option (Option ℕ)} {permissions : List Perm}
    (hmay : mayGrant db c project = true) (huser : c.user < db.users)
    (hasked : requested db c (grantLink db project c.user accessRole) permissions = some asked) :
    writeGrant db c ⟨project, c.user, asked.intersect (roleCeiling c.role), expires,
        domainLists.getD [], grantLink db project c.user accessRole⟩ domainLists =
      .putProjectGrant (ownGrant db c project asked expires domainLists
        (grantLink db project c.user accessRole)) := by
  obtain ⟨p, m, hp, hm⟩ := member_of_permissionsFor hmay
  have hlookup : lookup Project.id db.projects project = some p :=
    (Option.filter_eq_some_iff.mp hp).1
  have hreaches : reachesProject db c project = true := by
    simp [reachesProject, orgOfProject, hlookup, Db.inOrg, hm]
  have hlink : (grantLink db project c.user accessRole).all
      (fun id => (lookup AccessRole.id db.accessRoles id).isSome) = true := by
    cases hlink : grantLink db project c.user accessRole with
    | none => rfl
    | some id =>
      simp only [requested, hlink, Option.map_eq_some_iff] at hasked
      obtain ⟨r, hr, _⟩ := hasked
      simp [(Option.filter_eq_some_iff.mp hr).1]
  unfold writeGrant
  rw [if_pos]
  · rfl
  · simp only [hreaches, huser, hlink, decide_true, Bool.and_self]

/-- A grant that escalates, run to its end. -/
theorem escalated {req : Request} (hn : Numbered w) (hmembers : MembersAreUsers w)
    (hc : callerOf w.db token = some c) (hplain : c.administers = false)
    (ha : arrives w token req = some w₁) (hesc : Escalates w c token req) :
    ∃ w₂, Reached (· = w₁) step (onlyRuns w.nextId) w₂ ∧ ¬ NotEscalated w.db w₂.db c.user := by
  cases req with
  | grantAccess project user permissions expires domainLists accessRole =>
    obtain ⟨rfl, hmay, hlists, hsession, hheld, asked, hasked, hmore⟩ := hesc
    obtain ⟨p, m, hp, hm⟩ := member_of_permissionsFor hmay
    obtain ⟨hmem, hmuser, _⟩ := member_some hm
    have hrole : m.role = c.role := role_of_caller hc hm
    have huser : c.user < w.db.users := hmuser ▸ hmembers m hmem
    have hg : checked w.db c
        (.grantAccess project c.user permissions expires domainLists accessRole) =
        some (.granting ⟨project, c.user, asked.intersect (roleCeiling c.role), expires,
          domainLists.getD [], grantLink w.db project c.user accessRole⟩ domainLists) := by
      simp only [checked, grantAccess, hmay, hlists, Bool.and_self, if_true, hp,
        Option.bind_some, hm, hasked, Option.map_some, hrole]
    obtain ⟨w₂, hr, hdb⟩ := grants_alone hn rfl hc ha hsession hheld hg
    have hwritten : w₂.db = execute (touched w token) (.putProjectGrant (ownGrant (touched w token)
        c project asked expires domainLists (grantLink w.db project c.user accessRole))) :=
      hdb.trans (congrArg (execute (touched w token)) (writeGrant_own hmay huser hasked))
    have hp' : (touched w token).project project = some p := hp
    have hm' : (touched w token).member c.user p.org = some m := hm
    refine ⟨w₂, hr, fun hkept => ?_⟩
    rcases hmore with ⟨hlive, q, hq, hceiling, hlacks⟩ |
      ⟨ids, hids, profile, row, host, hrow, hin, hblocks, hpasses⟩
    · have hhas : (w₂.db.permissionsFor c.user project).has q = true := by
        rw [hwritten, has_of_ownGrant (implicit_of_administers hplain) hp' hm' hrole, hq, hceiling,
          show (touched w token).live expires = true from hlive]
        rfl
      rw [(hkept.project project).has hhas] at hlacks
      cases hlacks
    · cases hids
      have hrow' : (touched w token).profile profile = some row := hrow
      have hstill := hkept.hosts profile host hblocks
      rw [hwritten, domainListsFor_ownGrant hrow' hin] at hstill
      cases hstill.symm.trans hpasses
  | _ => exact absurd hesc id

/-- From any state, a request of somebody who is neither owner nor admin leaves them
with no more than they had unless it is a grant to themselves that asks for it. -/
theorem caller_gains_nothing {req : Request} (hr : Reached init step anyStep w)
    (hc : callerOf w.db token = some c) (hplain : c.administers = false)
    (hreq : writesPermissions req = true) (ha : arrives w token req = some w₁) :
    (∀ w₂, Reached (· = w₁) step (onlyRuns w.nextId) w₂ → NotEscalated w.db w₂.db c.user) ↔
      ¬ Escalates w c token req := by
  have hn : Numbered w := hr.invariant Numbered (fun _ hi => hi ▸ numbered_empty) numbered_step
  have hmembers : MembersAreUsers w :=
    hr.invariant MembersAreUsers (fun _ hi => hi ▸ nofun) membersAreUsers_step
  constructor
  · intro hkept hesc
    obtain ⟨w₂, hr₂, hgained⟩ := escalated hn hmembers hc hplain ha hesc
    exact hgained (hkept w₂ hr₂)
  · intro hnot w₂ hr₂
    exact notEscalated_outcome hplain hc (lone_reached hplain hreq hn hc ha hr₂).outcome hnot

/-- The owner lets the manager see the project and manage access to it. -/
def managed : List Label :=
  team ++ whole 2 1 (.grantAccess 4 1 [.view, .manageAccess] none none none) 3

/-- The manager lets the plain member in, and gains nothing. -/
theorem caller_gains_nothing_managed :
    callerOf (after managed).db 2 = some ⟨1, 0, .manager⟩ ∧
      ∀ w₂, Reached (· = after (managed ++ [.arrives 2 (.grantAccess 4 2 [.view] none none none)]))
        step (onlyRuns 3) w₂ → NotEscalated (after managed).db w₂.db 1 := by
  have hempty : Reached init step anyStep empty := .start rfl
  have hmanaged : Reached init step anyStep (after managed) :=
    hempty.run_any managed (by decide)
  have hc : callerOf (after managed).db 2 = some ⟨1, 0, .manager⟩ := by decide
  have harrives : arrives (after managed) 2 (.grantAccess 4 2 [.view] none none none) =
      some (after (managed ++ [.arrives 2 (.grantAccess 4 2 [.view] none none none)])) := by
    decide
  refine ⟨hc, (caller_gains_nothing hmanaged hc rfl rfl harrives).mpr ?_⟩
  rintro ⟨hself, _⟩
  cases hself

/-- A grant of the manager to themselves, with the cookies besides. -/
def takesCookies : Request :=
  .grantAccess 4 1 [.view, .exportCookies, .manageAccess] none none none

/-- The manager grants themselves what the owner did not. -/
theorem manager_takes_cookies : ¬ ∀ w w₁ w₂ c token req, Reached init step anyStep w →
    callerOf w.db token = some c → c.administers = false → writesPermissions req = true →
    arrives w token req = some w₁ → Reached (· = w₁) step (onlyRuns w.nextId) w₂ →
    NotEscalated w.db w₂.db c.user := by
  intro h
  have hempty : Reached init step anyStep empty := .start rfl
  have hmanaged : Reached init step anyStep (after managed) :=
    hempty.run_any managed (by decide)
  have hstart : Reached (· = after (managed ++ [.arrives 2 takesCookies])) step
      (onlyRuns (after managed).nextId) (after (managed ++ [.arrives 2 takesCookies])) := .start rfl
  have hruns : Reached (· = after (managed ++ [.arrives 2 takesCookies])) step
      (onlyRuns (after managed).nextId) (after (managed ++ whole 3 2 takesCookies 3)) :=
    hstart.run (List.replicate 3 (.runs 3)) (by decide) (by decide)
  have hkept := h _ _ _ ⟨1, 0, .manager⟩ 2 takesCookies hmanaged (by decide) rfl rfl
    (by decide) hruns
  have hbefore : ((after managed).db.permissionsFor 1 4).has .exportCookies = false := by
    decide
  have hafter : ((after (managed ++ whole 3 2 takesCookies 3)).db.permissionsFor 1 4).has
      .exportCookies = true := by decide
  rw [(hkept.project 4).has hafter] at hbefore
  cases hbefore

end Escalated

end FuryBrowser.OwnAccess
