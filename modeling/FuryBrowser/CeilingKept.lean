import FuryBrowser.TeamSteps

/-!
# Nobody exceeds their role

What a member has on a project is capped by their role at every request. A share is
not: it is capped by what the sharer held, once, and is added to the rest uncapped.
So a member stays within their role as long as no share with manage_access is
written for a plain member of the profile's own organisation, and nobody who holds
such a share there is made a plain member.
-/

namespace FuryBrowser.CeilingKept

open GuardedRuns RowTable Permissions TeamTables TeamRequests TeamRuns TeamSteps
open OrgKeys (Role)

/-- Members stay within the ceiling of their role on every profile of their
organisation, and plain members never manage access. -/
structure WithinCeiling (db : Db) : Prop where
  /-- Nobody exceeds their role. -/
  within : ∀ user profile p m, db.profile profile = some p → db.member user p.org = some m →
    (db.permissionsForProfile user profile).Within (roleCeiling m.role)
  /-- Plain members do not manage access. -/
  plain : ∀ user profile p m, db.profile profile = some p → db.member user p.org = some m →
    m.role = .member → (db.permissionsForProfile user profile).has .manageAccess = false

/-- Somebody is a plain member of the organisation of a profile. -/
def PlainMember (db : Db) (user profile : ℕ) : Prop :=
  ∃ p ∈ db.profiles, p.id = profile ∧
    ∃ m ∈ db.members, m.user = user ∧ m.org = p.org ∧ m.role = .member

instance (db : Db) (user profile : ℕ) : Decidable (PlainMember db user profile) := by
  unfold PlainMember
  infer_instance

/-- Somebody holds a live share with manage_access on a profile of an organisation. -/
def ManagesByShare (db : Db) (user org : ℕ) : Prop :=
  ∃ g ∈ db.profileGrants, g.user = user ∧ db.live g.expires = true ∧
    g.permissions.has .manageAccess = true ∧ ∃ p ∈ db.profiles, p.id = g.profile ∧ p.org = org

instance (db : Db) (user org : ℕ) : Decidable (ManagesByShare db user org) := by
  unfold ManagesByShare
  infer_instance

/-- A statement leaves manage_access by share to managers and above. -/
def cappedStage (db : Db) (c : Caller) : Stage → Bool
  | .sharing g => !(g.permissions.has .manageAccess && PlainMember db g.user g.profile)
  | .settingRole user role => role ≠ .member || !ManagesByShare db user c.org
  | _ => true

/-- No share with manage_access is written for a plain member of the profile's
organisation, and nobody with such a share there becomes one. -/
def Capped (w : World) : Label → Prop
  | .runs id => ∀ f ∈ lookup Flight.id w.flights id, cappedStage w.db f.caller f.stage = true
  | _ => True

instance : DecidableRel Capped := fun w a => by
  rcases a with _ | _ <;> dsimp only [Capped] <;> infer_instance

/-- What the tables keep. -/
structure Tables (db : Db) : Prop where
  /-- Ids of profiles were drawn. -/
  drawn : ∀ p ∈ db.profiles, p.id < db.fresh
  /-- So were those in shares. -/
  shared : ∀ g ∈ db.profileGrants, g.profile < db.fresh
  users : ∀ g ∈ db.profileGrants, g.user < db.users
  /-- They hold known capabilities. -/
  bits : ∀ g ∈ db.profileGrants, g.permissions.Within PermSet.all
  /-- A plain member does not manage access by a share. -/
  plain : ∀ g ∈ db.profileGrants, db.live g.expires = true → PlainMember db g.user g.profile →
    g.permissions.has .manageAccess = false

/-- What a share that is about to be written has. -/
def Shareable (db : Db) (g : ProfileGrant) : Prop :=
  g.permissions.Within PermSet.all ∧ g.profile < db.fresh

/-- What every capped run keeps. -/
structure Inv (w : World) : Prop where
  /-- Requests have ids of their own. -/
  numbered : Numbered w
  tables : Tables w.db
  /-- Shares about to be written. -/
  sharing : ∀ f ∈ w.flights, ∀ g, f.stage = .sharing g → Shareable w.db g

theorem tables_empty : Tables empty.db :=
  ⟨List.forall_mem_nil _, List.forall_mem_nil _, List.forall_mem_nil _, List.forall_mem_nil _,
    List.forall_mem_nil _⟩

section Statements

variable {db db' : Db}

/-- Fewer shares, fewer plain members, and the clock may go on. -/
theorem Tables.shrink (h : Tables db) (hnow : db.now ≤ db'.now) (hfresh : db.fresh ≤ db'.fresh)
    (husers : db.users ≤ db'.users) (hprofiles : ∀ p ∈ db'.profiles, p.id < db'.fresh)
    (hgrants : ∀ g' ∈ db'.profileGrants, ∃ g ∈ db.profileGrants, g.profile = g'.profile ∧
      g.user = g'.user ∧ g.permissions = g'.permissions ∧ g.expires = g'.expires)
    (hplain : ∀ g ∈ db.profileGrants, PlainMember db' g.user g.profile →
      PlainMember db g.user g.profile) : Tables db' := by
  refine ⟨hprofiles, fun g' hg' => ?_, fun g' hg' => ?_, fun g' hg' => ?_,
    fun g' hg' hlive hm => ?_⟩
  all_goals obtain ⟨g, hg, hprofile, huser, hbits, hexpires⟩ := hgrants g' hg'
  · exact hprofile ▸ Nat.lt_of_lt_of_le (h.shared g hg) hfresh
  · exact huser ▸ Nat.lt_of_lt_of_le (h.users g hg) husers
  · exact hbits ▸ h.bits g hg
  · have hlive' : db.live g.expires = true := by
      rw [hexpires]
      simp only [Db.live, Option.all_eq_true, decide_eq_true_eq] at hlive ⊢
      exact fun t ht => Nat.lt_of_le_of_lt hnow (hlive t ht)
    rw [← hprofile, ← huser] at hm
    exact hbits ▸ h.plain g hg hlive' (hplain g hg hm)

theorem Tables.same (h : Tables db) (hnow : db'.now = db.now) (hfresh : db.fresh ≤ db'.fresh)
    (husers : db'.users = db.users) (hmembers : db'.members = db.members)
    (hprofiles : db'.profiles = db.profiles) (hgrants : db'.profileGrants = db.profileGrants) :
    Tables db' := by
  refine h.shrink hnow.ge hfresh husers.ge (fun p hp => ?_) (fun g hg => ?_) fun g _ hm => ?_
  · exact Nat.lt_of_lt_of_le (h.drawn p (hprofiles ▸ hp)) hfresh
  · exact ⟨g, hgrants ▸ hg, rfl, rfl, rfl, rfl⟩
  · unfold PlainMember at hm ⊢
    rw [hprofiles, hmembers] at hm
    exact hm

/-- Rows of `profiles` change, and neither their ids nor their organisations. -/
theorem Tables.profilesChange (h : Tables db) {p : Profile → Bool} {f : Profile → Profile}
    (hprofiles : db'.profiles = updateWhere p f db.profiles)
    (hid : ∀ r, (f r).id = r.id) (horg : ∀ r, (f r).org = r.org)
    (hnow : db'.now = db.now) (hfresh : db'.fresh = db.fresh) (husers : db'.users = db.users)
    (hmembers : db'.members = db.members) (hgrants : db'.profileGrants = db.profileGrants) :
    Tables db' := by
  have hback : ∀ r' ∈ db'.profiles, ∃ r ∈ db.profiles, r.id = r'.id ∧ r.org = r'.org := by
    intro r' hr'
    rw [hprofiles] at hr'
    rcases updateWhere_cases hr' with ⟨hin, _⟩ | ⟨r, hr, _, rfl⟩
    · exact ⟨r', hin, rfl, rfl⟩
    · exact ⟨r, hr, (hid r).symm, (horg r).symm⟩
  refine h.shrink hnow.ge hfresh.ge husers.ge (fun r' hr' => ?_) (fun g hg => ?_) ?_
  · obtain ⟨r, hr, heq, _⟩ := hback r' hr'
    exact heq ▸ hfresh ▸ h.drawn r hr
  · exact ⟨g, hgrants ▸ hg, rfl, rfl, rfl, rfl⟩
  · rintro g _ ⟨r', hr', hpid, m, hm, huser, hmorg, hrole⟩
    obtain ⟨r, hr, hrid, hrorg⟩ := hback r' hr'
    exact ⟨r, hr, hrid.trans hpid, m, hmembers ▸ hm, huser, hmorg.trans hrorg.symm, hrole⟩

theorem Tables.putShare (h : Tables db) {g : ProfileGrant} (hg : Shareable db g)
    (huser : g.user < db.users) (hplain : PlainMember db g.user g.profile →
      g.permissions.has .manageAccess = false) : Tables (execute db (.putProfileGrant g)) := by
  have hmem : ∀ g' ∈ (execute db (.putProfileGrant g)).profileGrants,
      g' = g ∨ g' ∈ db.profileGrants := fun g' hg' => (mem_put.mp hg').imp id And.left
  refine ⟨h.drawn, fun g' hg' => ?_, fun g' hg' => ?_, fun g' hg' => ?_, fun g' hg' hlive hm => ?_⟩
  all_goals rcases hmem g' hg' with rfl | hin
  · exact hg.2
  · exact h.shared g' hin
  · exact huser
  · exact h.users g' hin
  · exact hg.1
  · exact h.bits g' hin
  · exact hplain hm
  · exact h.plain g' hin hlive hm

theorem Tables.setRole (h : Tables db) {user org : ℕ} {role : Role}
    (hrole : role = .member → ¬ ManagesByShare db user org) :
    Tables (execute db (.setRole user org role)) := by
  refine ⟨h.drawn, h.shared, h.users, h.bits, ?_⟩
  rintro g hg hlive ⟨p, hp, hid, m', hm', huser, horg, hmember⟩
  rcases updateWhere_cases hm' with ⟨hin, _⟩ | ⟨m, hin, hset, rfl⟩
  · exact h.plain g hg hlive ⟨p, hp, hid, m', hin, huser, horg, hmember⟩
  · -- The one whose role was set: they hold no share with manage_access.
    simp only [Bool.and_eq_true, decide_eq_true_eq] at hset
    by_contra hmanages
    exact hrole hmember ⟨g, hg, huser.symm.trans hset.1, hlive, by simpa using hmanages, p, hp, hid,
      horg.symm.trans hset.2⟩

theorem Tables.insertProfile (h : Tables db) (org project : ℕ) :
    Tables (execute db (.insertProfile org project)) := by
  have hmem : ∀ p ∈ (execute db (.insertProfile org project)).profiles,
      p = ⟨db.fresh, org, project, false⟩ ∨ p ∈ db.profiles := fun p hp => List.mem_cons.mp hp
  refine h.shrink Nat.le.refl (Nat.le_succ _) Nat.le.refl (fun p hp => ?_)
    (fun g hg => ⟨g, hg, rfl, rfl, rfl, rfl⟩) ?_
  · rcases hmem p hp with rfl | hin
    · exact Nat.lt_succ_self _
    · exact Nat.lt_succ_of_lt (h.drawn p hin)
  · rintro g hg ⟨p, hp, hid, hm⟩
    rcases hmem p hp with rfl | hin
    · -- No share is of a profile that is new.
      exact absurd (h.shared g hg) (by rw [← hid]; exact Nat.lt_irrefl _)
    · exact ⟨p, hin, hid, hm⟩

theorem Tables.purge (h : Tables db) (profile : ℕ) : Tables (execute db (.purge profile)) := by
  refine h.shrink Nat.le.refl Nat.le.refl Nat.le.refl
    (fun p hp => h.drawn p (mem_deleteWhere.mp hp).1)
    (fun g hg => ⟨g, (mem_deleteWhere.mp hg).1, rfl, rfl, rfl, rfl⟩) ?_
  rintro g _ ⟨p, hp, hid, hm⟩
  exact ⟨p, (mem_deleteWhere.mp hp).1, hid, hm⟩

theorem Tables.rotate (h : Tables db) (org : ℕ) (remove : Option ℕ) (pending : Pending)
    (generation : ℕ) : Tables (execute db (.rotate org remove pending generation)) := by
  refine h.shrink Nat.le.refl Nat.le.refl Nat.le.refl h.drawn (fun g' hg' => ?_) ?_
  · rcases updateWhere_cases hg' with ⟨hin, _⟩ | ⟨g, hg, _, rfl⟩
    · exact ⟨g', hin, rfl, rfl, rfl, rfl⟩
    · exact ⟨g, hg, rfl, rfl, rfl, rfl⟩
  · rintro g _ ⟨p, hp, hid, m, hm, hrest⟩
    exact ⟨p, hp, hid, m, (mem_deleteWhere.mp hm).1, hrest⟩

/-- Every statement keeps the tables as long as its share or its role may be written. -/
theorem tables_execute (h : Tables db) (s : Statement)
    (hshare : ∀ g, s = .putProfileGrant g → Shareable db g ∧ g.user < db.users ∧
      (PlainMember db g.user g.profile → g.permissions.has .manageAccess = false))
    (hrole : ∀ user org role, s = .setRole user org role → role = .member →
      ¬ ManagesByShare db user org) : Tables (execute db s) := by
  cases s with
  | putProfileGrant g =>
    obtain ⟨hg, huser, hplain⟩ := hshare g rfl
    exact h.putShare hg huser hplain
  | setRole user org role => exact h.setRole (hrole user org role rfl)
  | insertProfile org project => exact h.insertProfile org project
  | purge profile => exact h.purge profile
  | rotate org remove pending generation => exact h.rotate org remove pending generation
  | dropProfileGrant profile user =>
    exact h.shrink Nat.le.refl Nat.le.refl Nat.le.refl h.drawn
      (fun g hg => ⟨g, (mem_deleteWhere.mp hg).1, rfl, rfl, rfl, rfl⟩) fun _ _ hm => hm
  | trash profile | trashProject project ids | moveProfiles ids project | restore profile =>
    exact h.profilesChange rfl (fun _ => rfl) (fun _ => rfl) rfl rfl rfl rfl rfl
  | nothing | touchSession token | extendLock profile user token | releaseLock profile token
  | dropLocks user profiles | putProjectGrant g | dropProjectGrant project user
  | setPermissions writes | dropAccessRole id | dropDomainList id | forgetDomainList id org =>
    exact h.same rfl Nat.le.refl rfl rfl rfl rfl
  | putLock profile user | saveAccessRole r writes | saveDomainList l | insertProject org =>
    exact h.same rfl (Nat.le_succ _) rfl rfl rfl rfl

theorem tables_join (h : Tables db) (org : ℕ) (role : Role) : Tables (join db org role) := by
  have hmem : ∀ m ∈ (join db org role).members, m = ⟨db.users, org, role⟩ ∨ m ∈ db.members :=
    fun m hm => List.mem_cons.mp hm
  refine h.shrink Nat.le.refl (Nat.le_succ _) (Nat.le_succ _)
    (fun p hp => Nat.lt_succ_of_lt (h.drawn p hp)) (fun g hg => ⟨g, hg, rfl, rfl, rfl, rfl⟩) ?_
  rintro g hg ⟨p, hp, hid, m, hm, huser, hrest⟩
  rcases hmem m hm with rfl | hin
  · exact absurd (h.users g hg) (by rw [← huser]; exact Nat.lt_irrefl _)
  · exact ⟨p, hp, hid, m, hin, huser, hrest⟩

end Statements

section Steps

variable {w w' : World} {f : Flight}

theorem Shareable.mono {db db' : Db} {g : ProfileGrant} (h : Shareable db g)
    (hfresh : db.fresh ≤ db'.fresh) : Shareable db' g :=
  ⟨h.1, Nat.lt_of_lt_of_le h.2 hfresh⟩

/-- Whatever a share asks for, it holds known capabilities on a profile that is there. -/
theorem shareable_checked {db : Db} {c : Caller} {profile user generation : ℕ}
    {permissions : List Perm} {expires : Option ℕ} {g : ProfileGrant} (h : Tables db)
    (hg : shareProfile db c profile user permissions expires generation = some g) :
    Shareable db g := by
  simp only [shareProfile, Option.ite_none_right_eq_some, Option.some.injEq, Bool.and_eq_true] at hg
  obtain ⟨⟨⟨hmanages, _⟩, _⟩, rfl⟩ := hg
  refine ⟨intersect_within_left.trans (fromIter_within_all permissions), ?_⟩
  unfold Db.permissionsForProfile at hmanages
  split at hmanages
  · simp at hmanages
  · rename_i p hp
    obtain ⟨hmem, hid⟩ := lookup_some (Option.filter_eq_some_iff.mp hp).1
    exact hid ▸ h.drawn p hmem

/-- Requests at other stages do not matter. -/
theorem Inv.flights (hw : Inv w) (hn : Numbered w') (htables : Tables w'.db)
    (hfresh : w.db.fresh ≤ w'.db.fresh) (hflights : ∀ f ∈ w'.flights, ∀ g,
      f.stage = .sharing g → f ∈ w.flights ∨ Shareable w.db g) : Inv w' := by
  refine ⟨hn, htables, fun f hf g hg => ?_⟩
  rcases hflights f hf g hg with hin | h
  · exact (hw.sharing f hin g hg).mono hfresh
  · exact h.mono hfresh

theorem inv_runs (hw : Inv w) {id : ℕ} (hcapped : Capped w (.runs id))
    (hs : runs w id = some w') : Inv w' := by
  have hn : Numbered w' :=
    numbered_step hw.numbered trivial (show step w (.runs id) = some w' from hs)
  obtain ⟨f, hf, hid, s, st, hnext, rfl⟩ := runs_some hs
  have hwrote := next_wrote hnext
  have hlookup : lookup Flight.id w.flights id = some f := hid ▸ lookup_of_mem hw.numbered.ids hf
  have hstage := hcapped f hlookup
  have htables : Tables (execute w.db s) := by
    refine tables_execute hw.tables s (fun g hg => ?_) fun user org role hrole hmember => ?_
    · subst hg
      obtain ⟨_, hsharing, _, huser⟩ := hwrote
      refine ⟨hw.sharing f hf g hsharing, huser, fun hplain => ?_⟩
      simpa [cappedStage, hsharing, hplain] using hstage
    · subst hrole
      obtain ⟨hsetting, rfl, _⟩ := hwrote
      simpa [cappedStage, hsetting, hmember] using hstage
  refine hw.flights hn htables (fresh_execute w.db s) fun f' hf' g hg => ?_
  rcases mem_goOn hw.numbered hf hid hf' with ⟨hin, _⟩ | ⟨stage, rfl, rfl⟩
  · exact .inl hin
  · have hbecame := next_became hnext
    rw [show stage = .sharing g from hg] at hbecame
    obtain ⟨_, _, _, _, _, _, hchecked⟩ := hbecame
    exact .inr (shareable_checked hw.tables hchecked)

theorem inv_step : Preserved step Capped Inv := by
  intro w a w' hw hcapped hs
  have hn : Numbered w' := numbered_step hw.numbered trivial hs
  cases a with
  | found role =>
    cases hs
    have htables : Tables { draw w.db with orgs := ⟨w.db.fresh, 1⟩ :: w.db.orgs } :=
      hw.tables.same rfl (Nat.le_succ _) rfl rfl rfl rfl
    exact hw.flights hn (tables_join htables _ role)
      (Nat.le_succ_of_le (Nat.le_succ _)) fun f hf _ _ => .inl hf
  | enroll org role =>
    simp only [step, Option.ite_none_left_eq_some, Option.some.injEq] at hs
    obtain ⟨_, rfl⟩ := hs
    exact hw.flights hn (tables_join hw.tables org role) (Nat.le_succ _) fun f hf _ _ => .inl hf
  | signIn user =>
    simp only [step, Option.ite_none_right_eq_some, Option.some.injEq] at hs
    obtain ⟨_, rfl⟩ := hs
    exact hw.flights hn (hw.tables.same rfl (Nat.le_succ _) rfl rfl rfl rfl) (Nat.le_succ _)
      fun f hf _ _ => .inl hf
  | signOut token =>
    cases hs
    exact hw.flights hn (hw.tables.same rfl Nat.le.refl rfl rfl rfl rfl) Nat.le.refl
      fun f hf _ _ => .inl hf
  | arrives token req =>
    obtain ⟨c, _, rfl⟩ := Option.map_eq_some_iff.mp hs
    refine hw.flights hn hw.tables Nat.le.refl fun f hf g hg => ?_
    rcases List.mem_cons.mp hf with rfl | hin
    · cases hg
    · exact .inl hin
  | runs id => exact inv_runs hw hcapped hs
  | lost id =>
    cases hs
    exact hw.flights hn hw.tables Nat.le.refl fun f hf _ _ => .inl (mem_deleteWhere.mp hf).1
  | tick seconds =>
    cases hs
    refine hw.flights hn ?_ Nat.le.refl fun f hf _ _ => .inl hf
    exact hw.tables.shrink (Nat.le_add_right _ _) Nat.le.refl Nat.le.refl hw.tables.drawn
      (fun g hg => ⟨g, hg, rfl, rfl, rfl, rfl⟩) fun _ _ hm => hm

end Steps

/-- With such tables, members stay within their role: projects are capped by
`effective`, and shares by what plain members do not have. -/
theorem Tables.withinCeiling {db : Db} (h : Tables db) : WithinCeiling db := by
  have hwithin : ∀ user profile p m, db.profile profile = some p →
      db.member user p.org = some m →
      (db.permissionsForProfile user profile).Within (roleCeiling m.role) := by
    intro user profile p m hp hm
    unfold Db.permissionsForProfile
    split
    · exact none_within
    rename_i live hlive
    refine PermSet.Within.or ?_ ?_
    · -- The project is in the member's organisation, or they have nothing there.
      cases hproject : db.project live.project with
      | none =>
        simp only [Db.permissionsFor, hproject]
        exact none_within
      | some pr =>
        cases hpr : db.member user pr.org with
        | none =>
          simp only [Db.permissionsFor, hproject, hpr]
          exact none_within
        | some m' =>
          have hsame : m' = m := by
            have hlookup := (Option.filter_eq_some_iff.mp hpr).1
            exact Option.some.inj (hlookup.symm.trans (Option.filter_eq_some_iff.mp hm).1)
          exact hsame ▸ permissionsFor_within hproject hpr
    · unfold Db.direct
      split
      · exact none_within
      rename_i g hg
      obtain ⟨hlookup, hunexpired⟩ := Option.filter_eq_some_iff.mp hg
      obtain ⟨hmem, hkey⟩ := lookup_some hlookup
      have hprofile : g.profile = profile := congrArg Prod.fst hkey
      have huser : g.user = user := congrArg Prod.snd hkey
      have hbits := h.bits g hmem
      obtain ⟨hmmem, hmuser, hmorg⟩ := member_some hm
      obtain ⟨hpmem, hpid⟩ := lookup_some hp
      cases hrole : m.role with
      | member =>
        refine within_member hbits (h.plain g hmem (by simpa using hunexpired) ?_)
        exact ⟨p, hpmem, hpid.trans hprofile.symm, m, hmmem, hmuser.trans huser.symm, hmorg, hrole⟩
      | owner | admin | manager => exact hbits
  refine ⟨hwithin, fun user profile p m hp hm hrole => ?_⟩
  by_contra hmanages
  have hceiling := (hwithin user profile p m hp hm).has (by simpa using hmanages)
  rw [hrole] at hceiling
  exact absurd hceiling (by decide)

/-- In every capped run, nobody exceeds their role. -/
theorem nobody_exceeds_role {w : World} (hr : Reached init step Capped w) : WithinCeiling w.db := by
  have hinit : ∀ w, init w → Inv w := fun _ hi =>
    hi ▸ ⟨numbered_empty, tables_empty, List.forall_mem_nil _⟩
  exact (hr.invariant Inv hinit inv_step).tables.withinCeiling

/-- The owner shares the profile with the plain member. -/
def sharedWithMember (permissions : List Perm) : List Label :=
  team ++ whole 2 1 (.shareProfile 5 2 permissions none 1) 3

/-- A share to work with: the member may launch, and no more than their role. -/
theorem nobody_exceeds_role_shared :
    ((after (sharedWithMember [.view, .launch])).db.permissionsForProfile 2 5).has .launch = true ∧
      WithinCeiling (after (sharedWithMember [.view, .launch])).db := by
  have hempty : Reached init step Capped empty := .start rfl
  exact ⟨by decide, nobody_exceeds_role
    (hempty.run (sharedWithMember [.view, .launch]) (by decide) (by decide))⟩

/-- A share with manage_access: the plain member manages access. -/
theorem member_manages_access : ¬ ∀ w, Reached init step anyStep w → WithinCeiling w.db := by
  intro h
  have hempty : Reached init step anyStep empty := .start rfl
  have hreached : Reached init step anyStep (after (sharedWithMember [.view, .manageAccess])) :=
    hempty.run_any (sharedWithMember [.view, .manageAccess]) (by decide)
  have hplain := (h _ hreached).plain 2 5 ⟨5, 0, 4, false⟩ ⟨2, 0, .member⟩ (by decide)
    (by decide) rfl
  have hmanages : ((after (sharedWithMember [.view, .manageAccess])).db.permissionsForProfile
      2 5).has .manageAccess = true := by decide
  cases hplain.symm.trans hmanages

end FuryBrowser.CeilingKept
