import FuryBrowser.TeamSteps

/-!
# Where profiles belong

No constraint of the database says that a profile is in a project of its own
organisation. The handlers see to it: a profile is created by, and moved by, members
of one organisation only, and nobody is ever in two.

All of this holds in every run, with no restriction on the schedule.
-/

namespace FuryBrowser.ProfileHomes

open GuardedRuns RowTable Permissions TeamTables TeamRequests TeamRuns TeamSteps
open OrgKeys (Role)

/-- Profiles of the caller's organisation, or such that were. -/
def OwnProfiles (db : Db) (c : Caller) (ids : List ℕ) : Prop :=
  ∀ id ∈ ids, id < db.fresh ∧ ∀ r ∈ db.profiles, r.id = id → r.org = c.org

/-- A request that creates or moves profiles stays in its caller's organisation. -/
def Bound (db : Db) (c : Caller) : Stage → Prop
  | .creatingProfile project => orgOfProject db project = some c.org
  | .moving _ project written =>
    orgOfProject db project = some c.org ∧ OwnProfiles db c written
  | .moveChecked profile _ project written =>
    orgOfProject db project = some c.org ∧ OwnProfiles db c (profile :: written)
  | _ => True

/-- What every run keeps. -/
structure Homes (w : World) : Prop where
  /-- Requests have ids of their own. -/
  numbered : Numbered w
  drawn : Drawn w.db
  users : MembersAreUsers w
  seats : KeyUnique Member.user w.db.members
  /-- Whoever calls is in the organisation they were in, or in none. -/
  callers : ∀ f ∈ w.flights, f.caller.user < w.db.users ∧
    ∀ m ∈ w.db.members, m.user = f.caller.user → m.org = f.caller.org
  profiles : KeyUnique Profile.id w.db.profiles
  projects : KeyUnique Project.id w.db.projects
  /-- Profiles are in projects of their organisation. -/
  homed : ∀ p ∈ w.db.profiles, orgOfProject w.db p.project = some p.org
  /-- Requests keep them there. -/
  bound : ∀ f ∈ w.flights, Bound w.db f.caller f.stage

section Tables

variable {db : Db} {s : Statement} {user org : ℕ}

/-- Somebody who is in an organisation was in it. -/
theorem inOrg_of_execute (h : (execute db s).inOrg user org = true)
    (hseats : KeyUnique Member.user db.members) : db.inOrg user org = true := by
  obtain ⟨m, hm⟩ := Option.isSome_iff_exists.mp h
  obtain ⟨hmem, huser, horg⟩ := member_some hm
  obtain ⟨old, hold, holdUser, holdOrg⟩ := mem_members_execute hmem
  have hlookup : lookup Member.user db.members user = some old := by
    rw [← huser, ← holdUser]
    exact lookup_of_mem hseats hold
  simp [Db.inOrg, Db.member, hlookup, Option.filter, holdOrg, horg]

/-- A project that is there stays in its organisation. -/
theorem orgOfProject_kept {project : ℕ} (hd : Drawn db)
    (h : orgOfProject db project = some org) :
    orgOfProject (execute db s) project = some org := by
  obtain ⟨p, hp, horg⟩ := Option.map_eq_some_iff.mp h
  cases s with
  | insertProject org' =>
    obtain ⟨hmem, hid⟩ := lookup_some hp
    have hne : db.fresh ≠ project := fun heq => Nat.lt_irrefl _ (heq ▸ hid ▸ hd.projects p hmem)
    have hfound : lookup Project.id (⟨db.fresh, org', false⟩ :: db.projects) project = some p := by
      unfold lookup at hp ⊢
      rw [List.find?_cons_of_neg (by simpa using hne)]
      exact hp
    exact Option.map_eq_some_iff.mpr ⟨p, hfound, horg⟩
  | trashProject trashed ids =>
    have hfound : lookup Project.id (updateWhere (fun p => p.id = trashed)
        (fun p => { p with deleted := true }) db.projects) project =
        some (if p.id = trashed then { p with deleted := true } else p) := by
      rw [lookup_updateWhere (by simp), hp]
      simp
    refine Option.map_eq_some_iff.mpr ⟨_, hfound, ?_⟩
    split <;> exact horg
  | _ => exact h

/-- A row of `profiles` is new, or has the organisation it had. It is in the project it
was in unless it is moved, and out of the trash only if it was or is restored. -/
theorem mem_profiles_execute {r : Profile} (h : r ∈ (execute db s).profiles) :
    (∃ org project, s = .insertProfile org project ∧ r = ⟨db.fresh, org, project, false⟩) ∨
      ∃ old ∈ db.profiles, old.id = r.id ∧ old.org = r.org ∧
        (r.project = old.project ∨ ∃ ids, s = .moveProfiles ids r.project ∧ r.id ∈ ids) ∧
        (r.deleted = false → old.deleted = false ∨ s = .restore r.id) := by
  cases s with
  | insertProfile org project =>
    rcases List.mem_cons.mp h with rfl | hin
    · exact .inl ⟨org, project, rfl, rfl⟩
    · exact .inr ⟨r, hin, rfl, rfl, .inl rfl, .inl⟩
  | trash profile | trashProject project ids =>
    rcases updateWhere_cases h with ⟨hin, _⟩ | ⟨old, hold, _, rfl⟩
    · exact .inr ⟨r, hin, rfl, rfl, .inl rfl, .inl⟩
    · exact .inr ⟨old, hold, rfl, rfl, .inl rfl, nofun⟩
  | restore profile =>
    rcases updateWhere_cases h with ⟨hin, _⟩ | ⟨old, hold, hid, rfl⟩
    · exact .inr ⟨r, hin, rfl, rfl, .inl rfl, .inl⟩
    · exact .inr ⟨old, hold, rfl, rfl, .inl rfl,
        fun _ => .inr (congrArg Statement.restore (of_decide_eq_true hid).symm)⟩
  | moveProfiles ids project =>
    rcases updateWhere_cases h with ⟨hin, _⟩ | ⟨old, hold, hmoved, rfl⟩
    · exact .inr ⟨r, hin, rfl, rfl, .inl rfl, .inl⟩
    · exact .inr ⟨old, hold, rfl, rfl, .inr ⟨ids, rfl, by simpa using hmoved⟩, .inl⟩
  | purge profile => exact .inr ⟨r, (mem_deleteWhere.mp h).1, rfl, rfl, .inl rfl, .inl⟩
  | _ => exact .inr ⟨r, h, rfl, rfl, .inl rfl, .inl⟩

theorem keyUnique_profiles (hd : Drawn db) (h : KeyUnique Profile.id db.profiles) :
    KeyUnique Profile.id (execute db s).profiles := by
  cases s with
  | insertProfile org project => exact h.cons fun p hp => Nat.ne_of_lt (hd.profiles p hp)
  | trash profile | trashProject project ids | restore profile | moveProfiles ids project =>
    exact h.updateWhere fun _ _ => rfl
  | purge profile => exact h.deleteWhere
  | _ => exact h

theorem keyUnique_projects (hd : Drawn db) (h : KeyUnique Project.id db.projects) :
    KeyUnique Project.id (execute db s).projects := by
  cases s with
  | insertProject org => exact h.cons fun p hp => Nat.ne_of_lt (hd.projects p hp)
  | trashProject project ids => exact h.updateWhere fun _ _ => rfl
  | _ => exact h

theorem keyUnique_members (h : KeyUnique Member.user db.members) :
    KeyUnique Member.user (execute db s).members := by
  cases s with
  | setRole user org role => exact h.updateWhere fun _ _ => rfl
  | rotate org remove pending generation => exact h.deleteWhere
  | _ => exact h

theorem OwnProfiles.execute {c : Caller} {ids : List ℕ} (h : OwnProfiles db c ids) :
    OwnProfiles (TeamRequests.execute db s) c ids := by
  intro id hid
  obtain ⟨hdrawn, horg⟩ := h id hid
  refine ⟨Nat.lt_of_lt_of_le hdrawn (fresh_execute db s), fun r hr hrid => ?_⟩
  rcases mem_profiles_execute hr with ⟨_, _, _, rfl⟩ | ⟨old, hmem, holdId, holdOrg, _⟩
  · exact absurd hdrawn (hrid ▸ Nat.lt_irrefl _)
  · exact holdOrg ▸ horg old hmem (holdId.trans hrid)

/-- What a request is bound to, others leave it. -/
theorem Bound.execute {c : Caller} {stage : Stage} (hd : Drawn db) (h : Bound db c stage) :
    Bound (TeamRequests.execute db s) c stage := by
  cases stage with
  | creatingProfile project => exact orgOfProject_kept hd h
  | moving todo project written => exact ⟨orgOfProject_kept hd h.1, h.2.execute⟩
  | moveChecked profile todo project written => exact ⟨orgOfProject_kept hd h.1, h.2.execute⟩
  | _ => trivial

/-- Ids may be drawn for something else. -/
theorem Bound.grow {db' : Db} {c : Caller} {stage : Stage} (h : Bound db c stage)
    (hprojects : db'.projects = db.projects) (hprofiles : db'.profiles = db.profiles)
    (hfresh : db.fresh ≤ db'.fresh) : Bound db' c stage := by
  have hown : ∀ ids, OwnProfiles db c ids → OwnProfiles db' c ids := fun ids hids id hid =>
    ⟨Nat.lt_of_lt_of_le (hids id hid).1 hfresh, hprofiles ▸ (hids id hid).2⟩
  have hproject : ∀ project, orgOfProject db' project = orgOfProject db project := by
    intro project
    rw [orgOfProject, hprojects, orgOfProject]
  cases stage with
  | creatingProfile project => exact (hproject project).trans h
  | moving todo project written => exact ⟨(hproject project).trans h.1, hown _ h.2⟩
  | moveChecked profile todo project written => exact ⟨(hproject project).trans h.1, hown _ h.2⟩
  | _ => trivial

end Tables

section Steps

variable {w w' : World} {f : Flight} {s : Statement} {stage : Stage}

/-- Whoever has a permission on a project is in its organisation, and it is live. -/
theorem Homes.project_of_permission (hw : Homes w) (hf : f ∈ w.flights) {project : ℕ} {p : Perm}
    (hp : (w.db.permissionsFor f.caller.user project).has p = true) :
    (∃ pr, w.db.project project = some pr) ∧
      orgOfProject w.db project = some f.caller.org := by
  obtain ⟨pr, m, hpr, hm⟩ := member_of_permissionsFor hp
  obtain ⟨hmem, huser, horg⟩ := member_some hm
  have hlookup : lookup Project.id w.db.projects project = some pr :=
    (Option.filter_eq_some_iff.mp hpr).1
  refine ⟨⟨pr, hpr⟩, ?_⟩
  rw [orgOfProject, hlookup, Option.map_some, ← horg]
  exact congrArg some ((hw.callers f hf).2 m hmem huser)

/-- What a request that has just gone on is bound to. -/
theorem bound_next (hw : Homes w) (hf : f ∈ w.flights) (hnext : next w f = some (s, some stage)) :
    Bound w.db f.caller stage := by
  have hbecame := next_became hnext
  cases stage with
  | creatingProfile project =>
    obtain ⟨_, hperm⟩ := hbecame
    exact (hw.project_of_permission hf hperm).2
  | moving todo project written =>
    rcases hbecame with ⟨_, rfl, hperm⟩ | ⟨profile, hstage⟩ | ⟨profile, before, hstage, rfl⟩
    · exact ⟨(hw.project_of_permission hf hperm).2, nofun⟩
    · have hbound := hw.bound f hf
      rw [hstage] at hbound
      exact hbound
    · have hbound := hw.bound f hf
      rw [hstage] at hbound
      exact hbound
  | moveChecked profile todo project written =>
    obtain ⟨hstage, ⟨p, hp, horg⟩, _⟩ := hbecame
    have hbound := hw.bound f hf
    rw [hstage] at hbound
    obtain ⟨hmem, hid⟩ := lookup_some (Option.filter_eq_some_iff.mp hp).1
    refine ⟨hbound.1, fun id hin => ?_⟩
    rcases List.mem_cons.mp hin with rfl | hin
    · exact ⟨hid ▸ hw.drawn.profiles p hmem, fun r hr hrid =>
        hw.profiles.eq hr hmem (hrid.trans hid.symm) ▸ horg⟩
    · exact hbound.2 id hin
  | _ => trivial

theorem homes_runs {id : ℕ} (hw : Homes w) (hs : runs w id = some w') : Homes w' := by
  have hstep : step w (.runs id) = some w' := hs
  have hn : Numbered w' := numbered_step hw.numbered trivial hstep
  have hd : Drawn w'.db := drawn_step hw.drawn trivial hstep
  have hu : MembersAreUsers w' := membersAreUsers_step hw.users trivial hstep
  obtain ⟨f, hf, hid, s, st, hnext, rfl⟩ := runs_some hs
  have hwrote := next_wrote hnext
  refine ⟨hn, hd, hu, keyUnique_members hw.seats, fun g hg => ?_,
    keyUnique_profiles hw.drawn hw.profiles,
    keyUnique_projects hw.drawn hw.projects, fun r hr => ?_, fun g hg => ?_⟩
  · obtain ⟨g₀, hg₀, hsame⟩ : ∃ g₀ ∈ w.flights, g₀.caller = g.caller := by
      rcases mem_goOn hw.numbered hf hid hg with ⟨hin, _⟩ | ⟨_, _, rfl⟩
      · exact ⟨g, hin, rfl⟩
      · exact ⟨f, hf, rfl⟩
    obtain ⟨huser, hmembers⟩ := hw.callers g₀ hg₀
    rw [hsame] at huser hmembers
    refine ⟨(users_execute w.db s).symm ▸ huser, fun m hm heq => ?_⟩
    obtain ⟨old, hold, holdUser, holdOrg⟩ := mem_members_execute hm
    exact holdOrg ▸ hmembers old hold (holdUser.trans heq)
  · rcases mem_profiles_execute hr with ⟨org, project, rfl, rfl⟩ |
      ⟨old, hold, holdId, holdOrg, hproject | ⟨ids, rfl, hin⟩, _⟩
    · obtain ⟨_, hstage, rfl, _⟩ := hwrote
      have hbound := hw.bound f hf
      rw [hstage] at hbound
      exact hbound
    · rw [hproject, ← holdOrg]
      exact orgOfProject_kept hw.drawn (hw.homed old hold)
    · obtain ⟨_, hstage⟩ := hwrote
      have hbound := hw.bound f hf
      rw [hstage] at hbound
      rw [← holdOrg, (hbound.2 r.id hin).2 old hold holdId]
      exact orgOfProject_kept hw.drawn hbound.1
  · rcases mem_goOn hw.numbered hf hid hg with ⟨hin, _⟩ | ⟨stage, rfl, rfl⟩
    · exact (hw.bound g hin).execute hw.drawn
    · exact (bound_next hw hf hnext).execute hw.drawn

theorem Homes.join (hw : Homes w) {a : Label} {org : ℕ} {role : Role} {orgs : List Org} {n : ℕ}
    (hle : w.db.fresh ≤ n)
    (hs : step w a = some { w with
      db := TeamRuns.join { w.db with orgs := orgs, fresh := n } org role }) :
    Homes { w with db := TeamRuns.join { w.db with orgs := orgs, fresh := n } org role } := by
  refine ⟨numbered_step hw.numbered trivial hs, drawn_step hw.drawn trivial hs,
    membersAreUsers_step hw.users trivial hs,
    hw.seats.cons fun m hm => Nat.ne_of_lt (hw.users m hm),
    fun f hf => ?_, hw.profiles, hw.projects, hw.homed,
    fun f hf => (hw.bound f hf).grow rfl rfl (Nat.le_succ_of_le hle)⟩
  obtain ⟨huser, hmembers⟩ := hw.callers f hf
  refine ⟨Nat.lt_succ_of_lt huser, fun m hm heq => ?_⟩
  rcases List.mem_cons.mp hm with rfl | hin
  · exact absurd heq (Nat.ne_of_gt huser)
  · exact hmembers m hin heq

theorem homes_step : Preserved step anyStep Homes := by
  intro w a w' hw _ hs
  have hn : Numbered w' := numbered_step hw.numbered trivial hs
  have hd : Drawn w'.db := drawn_step hw.drawn trivial hs
  have hu : MembersAreUsers w' := membersAreUsers_step hw.users trivial hs
  cases a with
  | found role =>
    have hstep := hs
    cases hs
    exact hw.join (Nat.le_succ _) hstep
  | enroll org role =>
    have hstep := hs
    simp only [step, Option.ite_none_left_eq_some, Option.some.injEq] at hs
    obtain ⟨_, rfl⟩ := hs
    exact hw.join Nat.le.refl hstep
  | signIn user =>
    simp only [step, Option.ite_none_right_eq_some, Option.some.injEq] at hs
    obtain ⟨_, rfl⟩ := hs
    exact ⟨hn, hd, hu, hw.seats, hw.callers, hw.profiles, hw.projects, hw.homed,
      fun f hf => (hw.bound f hf).grow rfl rfl (Nat.le_succ _)⟩
  | signOut token | tick seconds =>
    cases hs
    exact ⟨hn, hd, hu, hw.seats, hw.callers, hw.profiles, hw.projects, hw.homed, hw.bound⟩
  | arrives token req =>
    obtain ⟨c, hc, rfl⟩ := Option.map_eq_some_iff.mp hs
    refine ⟨hn, hd, hu, hw.seats, fun f hf => ?_, hw.profiles, hw.projects, hw.homed,
      fun f hf => ?_⟩
    · rcases List.mem_cons.mp hf with rfl | hin
      · obtain ⟨session, _, hc⟩ := Option.bind_eq_some_iff.mp hc
        obtain ⟨row, hrow, rfl⟩ := Option.map_eq_some_iff.mp hc
        have hmem := (lookup_some hrow).1
        exact ⟨hw.users row hmem, fun m hm heq => hw.seats.eq hm hmem heq ▸ rfl⟩
      · exact hw.callers f hin
    · rcases List.mem_cons.mp hf with rfl | hin
      · trivial
      · exact hw.bound f hin
  | runs id => exact homes_runs hw hs
  | lost id =>
    cases hs
    exact ⟨hn, hd, hu, hw.seats, fun f hf => hw.callers f (mem_deleteWhere.mp hf).1, hw.profiles,
      hw.projects, hw.homed, fun f hf => hw.bound f (mem_deleteWhere.mp hf).1⟩

theorem homes_empty : Homes empty :=
  ⟨numbered_empty, ⟨List.forall_mem_nil _, List.forall_mem_nil _, List.forall_mem_nil _,
    List.forall_mem_nil _⟩, List.forall_mem_nil _, keyUnique_nil, List.forall_mem_nil _,
    keyUnique_nil, keyUnique_nil, List.forall_mem_nil _, List.forall_mem_nil _⟩

end Steps

end FuryBrowser.ProfileHomes
