import FuryBrowser.TeamRuns

/-!
# What a step of a team's requests can do

Every statement and every stage of a handler comes from one place. The lemmas here
say from which, so that what follows never opens the handlers again.
-/

namespace FuryBrowser.TeamSteps

open GuardedRuns RowTable Permissions TeamTables TeamRequests TeamRuns
open OrgKeys (Role)
open ProfileLocks (Lock)

/-- Requests in flight have ids of their own. -/
structure Numbered (w : World) : Prop where
  ids : KeyUnique Flight.id w.flights
  /-- The next id is a new one. -/
  fresh : ∀ f ∈ w.flights, f.id < w.nextId

section Flights

variable {w w' : World} {f f' : Flight} {id : ℕ} {a : Label} {s : Statement} {st : Option Stage}

theorem runs_some (hs : runs w id = some w') : ∃ f ∈ w.flights, f.id = id ∧ ∃ s st,
    next w f = some (s, st) ∧ w' = { w with db := execute w.db s, flights := w.goOn id st } := by
  obtain ⟨f, hf, hs⟩ := Option.bind_eq_some_iff.mp hs
  obtain ⟨⟨s, st⟩, hnext, rfl⟩ := Option.map_eq_some_iff.mp hs
  obtain ⟨hmem, hid⟩ := lookup_some hf
  exact ⟨f, hmem, hid, s, st, hnext, rfl⟩

/-- After it, the request is at its next stage, and the others are where they were. -/
theorem mem_goOn (hw : Numbered w) (hf : f ∈ w.flights) (hid : f.id = id)
    (h : f' ∈ w.goOn id st) : (f' ∈ w.flights ∧ f'.id ≠ id) ∨
      ∃ stage, st = some stage ∧ f' = { f with stage := stage } := by
  cases st with
  | none =>
    obtain ⟨hin, hne⟩ := mem_deleteWhere.mp h
    exact .inl ⟨hin, by simpa using hne⟩
  | some stage =>
    rcases updateWhere_cases h with ⟨hin, hne⟩ | ⟨old, hold, heq, rfl⟩
    · exact .inl ⟨hin, by simpa using hne⟩
    · have hsame : old = f := hw.ids.eq hold hf ((of_decide_eq_true heq).trans hid.symm)
      exact .inr ⟨stage, rfl, by rw [hsame]⟩

theorem numbered_empty : Numbered empty := ⟨keyUnique_nil, List.forall_mem_nil _⟩

theorem numbered_goOn (hw : Numbered w) (id : ℕ) (st : Option Stage) :
    Numbered { w with flights := w.goOn id st } := by
  cases st with
  | none => exact ⟨hw.ids.deleteWhere, fun f hf => hw.fresh f (mem_deleteWhere.mp hf).1⟩
  | some stage =>
    refine ⟨hw.ids.updateWhere fun _ _ => rfl, fun f hf => ?_⟩
    rcases updateWhere_cases hf with ⟨hin, _⟩ | ⟨old, hold, _, rfl⟩
    · exact hw.fresh f hin
    · exact hw.fresh old hold

theorem numbered_step : Preserved step anyStep Numbered := by
  intro w a w' hw _ hs
  cases a with
  | found role =>
    cases hs
    exact ⟨hw.ids, hw.fresh⟩
  | enroll org role =>
    simp only [step, Option.ite_none_left_eq_some, Option.some.injEq] at hs
    obtain ⟨_, rfl⟩ := hs
    exact ⟨hw.ids, hw.fresh⟩
  | signIn user =>
    simp only [step, Option.ite_none_right_eq_some, Option.some.injEq] at hs
    obtain ⟨_, rfl⟩ := hs
    exact ⟨hw.ids, hw.fresh⟩
  | signOut token =>
    cases hs
    exact ⟨hw.ids, hw.fresh⟩
  | arrives token req =>
    obtain ⟨c, _, rfl⟩ := Option.map_eq_some_iff.mp hs
    refine ⟨hw.ids.cons fun f hf => Nat.ne_of_lt (hw.fresh f hf), fun f hf => ?_⟩
    rcases List.mem_cons.mp hf with rfl | hin
    · exact Nat.lt_succ_self _
    · exact Nat.lt_succ_of_lt (hw.fresh f hin)
  | runs id =>
    obtain ⟨f, _, _, s, st, _, rfl⟩ := runs_some hs
    have h := numbered_goOn hw id st
    exact ⟨h.ids, h.fresh⟩
  | lost id =>
    cases hs
    exact ⟨hw.ids.deleteWhere, fun f hf => hw.fresh f (mem_deleteWhere.mp hf).1⟩
  | tick seconds =>
    cases hs
    exact ⟨hw.ids, hw.fresh⟩

end Flights

/-- Where a statement that matters to access comes from. -/
def Wrote (w : World) (f : Flight) (st : Option Stage) : Statement → Prop
  | .putLock profile user => st = none ∧ user = f.caller.user ∧ w.db.sees user profile = true ∧
      ∃ force, f.stage = .locking profile force ∧
        ∀ l ∈ w.db.lock profile, l.expires ≤ w.db.now ∨ force = true
  | .extendLock profile user token => st = none ∧ user = f.caller.user ∧
      f.stage = .beating profile token ∧ w.db.sees user profile = true
  | .dropLocks user profiles =>
      (∃ project, f.stage = .revokingLocks project user ∧ profiles =
        (w.db.profiles.filter fun p => p.project = project && w.db.sees f.caller.user p.id).map
          Profile.id) ∨
      ∃ profile, f.stage = .unsharingLocks profile user ∧
        profiles = if w.db.sees f.caller.user profile then [profile] else []
  | .putProjectGrant g => st = none ∧ reachesProject w.db f.caller g.project = true ∧
      ∃ asked lists, f.stage = .granting asked lists ∧ g = { asked with
        domainLists := lists.getD (((w.db.projectGrant asked.project asked.user).map
          ProjectGrant.domainLists).getD []) }
  | .putProfileGrant g => st = none ∧ f.stage = .sharing g ∧
      reachesGrant w.db f.caller g.profile g.user = true ∧ g.user < w.db.users
  | .setRole user org role => f.stage = .settingRole user role ∧ org = f.caller.org ∧
      st = some (.relinking user)
  | .insertProfile org project => st = none ∧ f.stage = .creatingProfile project ∧
      org = f.caller.org ∧ (orgOfProject w.db project).isSome = true
  | .trash profile => st = none ∧ f.stage = .trashing profile ∧
      w.profileHeld f.id profile = false
  | .trashProject project ids => st = none ∧ f.stage = .projectMarked project ids ∧
      orgOfProject w.db project = some f.caller.org ∧
      w.db.inOrg f.caller.user f.caller.org = true
  | .moveProfiles ids project => st = none ∧ f.stage = .moving [] project ids
  | .restore profile => st = none ∧ f.stage = .restoring profile
  | .purge profile => st = none ∧ f.stage = .purging profile ∧
      (w.db.profile profile).any Profile.deleted = true
  | .rotate org remove pending generation => st = none ∧ org = f.caller.org ∧
      ∃ req, f.stage = .rotating req [] pending ∧ remove = req.remove ∧
        generation = req.generation + 1
  | _ => True

/-- Where a stage comes from. -/
def Became (w : World) (f : Flight) : Stage → Prop
  | .arrived _ _ => False
  | .locking profile force => f.stage = .begun (.acquireLock profile force) ∧
      acquireLock w.db f.caller profile force = true
  | .granting g lists => ∃ project user permissions expires accessRole,
      f.stage = .begun (.grantAccess project user permissions expires lists accessRole) ∧
        grantAccess w.db f.caller project user permissions expires lists accessRole = some g
  | .sharing g => ∃ profile user permissions expires generation,
      f.stage = .begun (.shareProfile profile user permissions expires generation) ∧
        shareProfile w.db f.caller profile user permissions expires generation = some g
  | .creatingProfile project => f.stage = .begun (.createProfile project) ∧
      (w.db.permissionsFor f.caller.user project).has .createProfile = true
  | .trashing profile => f.stage = .begun (.deleteProfile profile) ∧
      (w.db.permissionsForProfile f.caller.user profile).has .deleteProfile = true ∧
        w.db.isOpen profile = false
  | .projectChecked project => f.stage = .begun (.deleteProject project) ∧
      projectOpen w.db f.caller project = false
  | .projectMarked project ids => f.stage = .projectChecked project ∧
      ids = (w.db.profiles.filter fun p =>
        p.project = project && !p.deleted && w.db.sees f.caller.user p.id).map Profile.id
  | .moving todo project written =>
      (f.stage = .begun (.moveProfiles todo project) ∧ written = [] ∧
        (w.db.permissionsFor f.caller.user project).has .createProfile = true) ∨
      (∃ profile, f.stage = .moving (profile :: todo) project written) ∨
      ∃ profile before, f.stage = .moveChecked profile todo project before ∧
        written = profile :: before
  | .moveChecked profile todo project written => f.stage = .moving (profile :: todo) project written ∧
      (∃ p, w.db.liveProfile profile = some p ∧ p.org = f.caller.org) ∧
      w.db.isOpen profile = false
  | .restoring profile => f.stage = .begun (.restoreProfile profile) ∧
      mayDelete w.db f.caller profile = true
  | .rotating req todo pending =>
      (f.stage = .begun (.rotateOrgKey req) ∧ todo = phases ∧ pending = ⟨[], [], [], []⟩) ∨
      ∃ phase before, f.stage = .rotating req (phase :: todo) before ∧
        rotateNext w f.caller req before phase = some pending
  | _ => True

section Stages

variable {w : World} {f : Flight} {s : Statement} {stage : Stage}

theorem checked_became {req : Request} (hstage : f.stage = .begun req)
    (h : checked w.db f.caller req = some stage) : Became w f stage := by
  cases req with
  | acquireLock profile force =>
    simp only [checked, Option.ite_none_right_eq_some, Option.some.injEq] at h
    obtain ⟨hchecked, rfl⟩ := h
    exact ⟨hstage, hchecked⟩
  | grantAccess project user permissions expires domainLists accessRole =>
    obtain ⟨g, hg, rfl⟩ := Option.map_eq_some_iff.mp h
    exact ⟨project, user, permissions, expires, accessRole, hstage, hg⟩
  | shareProfile profile user permissions expires generation =>
    obtain ⟨g, hg, rfl⟩ := Option.map_eq_some_iff.mp h
    exact ⟨profile, user, permissions, expires, generation, hstage, hg⟩
  | createProfile project =>
    simp only [checked, Option.ite_none_right_eq_some, Option.some.injEq] at h
    obtain ⟨hchecked, rfl⟩ := h
    exact ⟨hstage, hchecked⟩
  | deleteProfile profile =>
    simp only [checked, Option.ite_none_right_eq_some, Option.some.injEq, Bool.and_eq_true,
      Bool.not_eq_true'] at h
    obtain ⟨⟨hperms, hopen⟩, rfl⟩ := h
    exact ⟨hstage, hperms, hopen⟩
  | deleteProject project =>
    simp only [checked, Option.ite_none_right_eq_some, Option.some.injEq, Bool.and_eq_true,
      Bool.not_eq_true'] at h
    obtain ⟨⟨_, hopen⟩, rfl⟩ := h
    exact ⟨hstage, hopen⟩
  | moveProfiles ids project =>
    simp only [checked, Option.ite_none_right_eq_some, Option.some.injEq, Bool.and_eq_true] at h
    obtain ⟨⟨_, hperms⟩, rfl⟩ := h
    exact .inl ⟨hstage, rfl, hperms⟩
  | restoreProfile profile =>
    simp only [checked, Option.ite_none_right_eq_some, Option.some.injEq] at h
    obtain ⟨hchecked, rfl⟩ := h
    exact ⟨hstage, hchecked⟩
  | rotateOrgKey req =>
    simp only [checked, Option.ite_none_right_eq_some, Option.some.injEq] at h
    obtain ⟨_, rfl⟩ := h
    exact .inl ⟨hstage, rfl, rfl⟩
  | heartbeat profile token | releaseLock profile token =>
    cases h
    trivial
  | revokeAccess project user | revokeShare profile user | setMemberRole user role
  | upsertAccessRole id permissions | deleteAccessRole id | upsertDomainList id kind domains
  | deleteDomainList id | createProject | purgeProfile profile =>
    simp only [checked, Option.ite_none_right_eq_some, Option.some.injEq] at h
    obtain ⟨_, rfl⟩ := h
    trivial

theorem moveNext_became {profile : ℕ} {todo : List ℕ} {project : ℕ} {written : List ℕ}
    (hstage : f.stage = .moving (profile :: todo) project written)
    (h : moveNext w.db f.caller profile todo project written = some stage) :
    Became w f stage := by
  obtain ⟨p, hp, h⟩ := Option.bind_eq_some_iff.mp h
  simp only [Option.ite_none_left_eq_some, Bool.or_eq_true, decide_eq_true_eq, not_or,
    not_not] at h
  obtain ⟨⟨horg, _⟩, h⟩ := h
  split at h
  · cases h
    exact .inr (.inl ⟨profile, hstage⟩)
  · simp only [Option.ite_none_left_eq_some, Option.ite_none_right_eq_some,
      Option.some.injEq] at h
    obtain ⟨hopen, _, rfl⟩ := h
    exact ⟨hstage, ⟨p, hp, horg⟩, by simpa using hopen⟩

theorem next_became (h : next w f = some (s, some stage)) : Became w f stage := by
  unfold next at h
  cases hstage : f.stage with
  | begun req =>
    simp only [hstage, Option.some.injEq, Prod.mk.injEq] at h
    exact checked_became hstage h.2
  | moving todo project written =>
    cases todo with
    | nil => simp [hstage] at h
    | cons profile todo =>
      simp only [hstage, Option.some.injEq, Prod.mk.injEq] at h
      exact moveNext_became hstage h.2
  | moveChecked profile todo project written =>
    simp only [hstage, Option.ite_none_left_eq_some, Option.some.injEq, Prod.mk.injEq] at h
    obtain ⟨_, _, rfl⟩ := h
    exact .inr (.inr ⟨profile, written, hstage, rfl⟩)
  | projectChecked project =>
    simp only [hstage, Option.ite_none_left_eq_some, Option.some.injEq, Prod.mk.injEq] at h
    obtain ⟨_, _, rfl⟩ := h
    exact ⟨hstage, rfl⟩
  | rotating req todo pending =>
    cases todo with
    | nil => simp [hstage] at h
    | cons phase todo =>
      simp only [hstage, Option.ite_none_left_eq_some, Option.some.injEq, Prod.mk.injEq] at h
      obtain ⟨_, _, h⟩ := h
      obtain ⟨p, hp, rfl⟩ := Option.map_eq_some_iff.mp h
      exact .inr ⟨phase, pending, hstage, hp⟩
  | relinked writes =>
    cases writes with
    | nil => simp [hstage] at h
    | cons write writes =>
      simp only [hstage, Option.ite_none_left_eq_some, Option.some.injEq, Prod.mk.injEq] at h
      obtain ⟨_, _, rfl⟩ := h
      trivial
  | arrived token req | revoking project user | unsharing profile user | settingRole user role =>
    simp only [hstage, Option.ite_none_left_eq_some, Option.some.injEq, Prod.mk.injEq] at h
    obtain ⟨_, _, rfl⟩ := h
    trivial
  | relinking user =>
    simp only [hstage, Option.some.injEq, Prod.mk.injEq] at h
    obtain ⟨_, rfl⟩ := h
    trivial
  | savingRole id permissions | deletingList id =>
    simp only [hstage] at h
    split at h
    · cases h
      trivial
    · cases h
  | deletingRole id | savingList id kind domains =>
    simp only [hstage] at h
    split at h <;> cases h
  | _ => simp [hstage] at h

end Stages

section Statements

variable {w : World} {f : Flight} {s : Statement} {st : Option Stage}

theorem next_wrote (h : next w f = some (s, st)) : Wrote w f st s := by
  unfold next at h
  cases hstage : f.stage with
  | locking profile force =>
    simp only [hstage, Option.ite_none_left_eq_some, Option.some.injEq, Prod.mk.injEq] at h
    obtain ⟨_, rfl, rfl⟩ := h
    unfold takeLock
    split
    · rename_i htake
      simp only [Bool.and_eq_true, Option.all_eq_true, Bool.or_eq_true, decide_eq_true_eq] at htake
      exact ⟨rfl, rfl, htake.1, force, hstage, htake.2⟩
    · trivial
  | beating profile token =>
    simp only [hstage, Option.ite_none_left_eq_some, Option.some.injEq, Prod.mk.injEq] at h
    obtain ⟨_, rfl, rfl⟩ := h
    unfold beat
    split
    · rename_i hsees
      exact ⟨rfl, rfl, hstage, hsees⟩
    · trivial
  | granting g lists =>
    simp only [hstage, Option.ite_none_left_eq_some, Option.some.injEq, Prod.mk.injEq] at h
    obtain ⟨_, rfl, rfl⟩ := h
    unfold writeGrant
    split
    · rename_i hwrite
      simp only [Bool.and_eq_true] at hwrite
      exact ⟨rfl, hwrite.1.1, g, lists, hstage, rfl⟩
    · trivial
  | revokingLocks project user =>
    simp only [hstage, Option.some.injEq, Prod.mk.injEq] at h
    obtain ⟨rfl, rfl⟩ := h
    exact .inl ⟨project, hstage, rfl⟩
  | sharing g =>
    simp only [hstage, Option.ite_none_left_eq_some, Option.some.injEq, Prod.mk.injEq] at h
    obtain ⟨_, rfl, rfl⟩ := h
    unfold writeShare
    split
    · rename_i hwrite
      simp only [Bool.and_eq_true, decide_eq_true_eq] at hwrite
      exact ⟨rfl, hstage, hwrite.1, hwrite.2⟩
    · trivial
  | unsharingLocks profile user =>
    simp only [hstage, Option.some.injEq, Prod.mk.injEq] at h
    obtain ⟨rfl, rfl⟩ := h
    exact .inr ⟨profile, hstage, rfl⟩
  | settingRole user role =>
    simp only [hstage, Option.ite_none_left_eq_some, Option.some.injEq, Prod.mk.injEq] at h
    obtain ⟨_, rfl, rfl⟩ := h
    exact ⟨hstage, rfl, rfl⟩
  | creatingProfile project =>
    simp only [hstage, Option.some.injEq, Prod.mk.injEq] at h
    obtain ⟨rfl, rfl⟩ := h
    split
    · rename_i hwrite
      simp only [Bool.and_eq_true] at hwrite
      exact ⟨rfl, hstage, rfl, hwrite.2⟩
    · trivial
  | trashing profile =>
    simp only [hstage, Option.ite_none_left_eq_some, Option.some.injEq, Prod.mk.injEq] at h
    obtain ⟨hfree, rfl, rfl⟩ := h
    split
    · exact ⟨rfl, hstage, by simpa using hfree⟩
    · trivial
  | projectMarked project ids =>
    simp only [hstage, Option.some.injEq, Prod.mk.injEq] at h
    obtain ⟨rfl, rfl⟩ := h
    split
    · rename_i hwrite
      obtain ⟨p, hp, hinside⟩ := (Option.any_eq_true _ _).mp hwrite
      simp only [Bool.and_eq_true, decide_eq_true_eq] at hinside
      have hlookup : lookup Project.id w.db.projects project = some p :=
        (Option.filter_eq_some_iff.mp hp).1
      exact ⟨rfl, hstage, by simp [orgOfProject, hlookup, hinside.1], hinside.1 ▸ hinside.2⟩
    · trivial
  | moving todo project written =>
    cases todo with
    | nil =>
      simp only [hstage, Option.some.injEq, Prod.mk.injEq] at h
      obtain ⟨rfl, rfl⟩ := h
      exact ⟨rfl, hstage⟩
    | cons profile todo =>
      simp only [hstage, Option.some.injEq, Prod.mk.injEq] at h
      obtain ⟨rfl, _⟩ := h
      trivial
  | restoring profile =>
    simp only [hstage, Option.ite_none_left_eq_some, Option.some.injEq, Prod.mk.injEq] at h
    obtain ⟨_, rfl, rfl⟩ := h
    split
    · exact ⟨rfl, hstage⟩
    · trivial
  | purging profile =>
    simp only [hstage, Option.ite_none_left_eq_some, Option.some.injEq, Prod.mk.injEq] at h
    obtain ⟨_, rfl, rfl⟩ := h
    split
    · rename_i hwrite
      simp only [Bool.and_eq_true] at hwrite
      exact ⟨rfl, hstage, hwrite.2⟩
    · trivial
  | rotating req todo pending =>
    cases todo with
    | nil =>
      simp only [hstage, Option.some.injEq, Prod.mk.injEq] at h
      obtain ⟨rfl, rfl⟩ := h
      exact ⟨rfl, rfl, req, hstage, rfl, rfl⟩
    | cons phase todo =>
      simp only [hstage, Option.ite_none_left_eq_some, Option.some.injEq, Prod.mk.injEq] at h
      obtain ⟨_, rfl, _⟩ := h
      trivial
  | relinked writes =>
    cases writes with
    | nil =>
      simp only [hstage, Option.some.injEq, Prod.mk.injEq] at h
      obtain ⟨rfl, _⟩ := h
      trivial
    | cons write writes =>
      simp only [hstage, Option.ite_none_left_eq_some, Option.some.injEq, Prod.mk.injEq] at h
      obtain ⟨_, rfl, _⟩ := h
      trivial
  | arrived token req | moveChecked profile todo project written | projectChecked project =>
    simp only [hstage, Option.ite_none_left_eq_some, Option.some.injEq, Prod.mk.injEq] at h
    obtain ⟨_, rfl, _⟩ := h
    trivial
  | begun req | relinking user | savedRole r writes =>
    simp only [hstage, Option.some.injEq, Prod.mk.injEq] at h
    obtain ⟨rfl, _⟩ := h
    trivial
  | savingRole id permissions | deletingRole id | savingList id kind domains | deletingList id =>
    simp only [hstage] at h
    split at h
    all_goals
      cases h
      trivial
  | forgettingList id | creatingProject =>
    simp only [hstage, Option.some.injEq, Prod.mk.injEq] at h
    obtain ⟨rfl, _⟩ := h
    split <;> trivial
  | releasing profile token | revoking project user | unsharing profile user =>
    simp only [hstage, Option.ite_none_left_eq_some, Option.some.injEq, Prod.mk.injEq] at h
    obtain ⟨_, rfl, _⟩ := h
    simp only [release, revokeGrant, revokeShareGrant]
    split <;> trivial

end Statements

section Tables

variable {db : Db} {s : Statement}

/-- Requests make no members and move none. -/
theorem mem_members_execute {m' : Member} (h : m' ∈ (execute db s).members) :
    ∃ m ∈ db.members, m.user = m'.user ∧ m.org = m'.org := by
  cases s with
  | setRole user org role =>
    rcases updateWhere_cases h with ⟨hin, _⟩ | ⟨m, hm, _, rfl⟩
    · exact ⟨m', hin, rfl, rfl⟩
    · exact ⟨m, hm, rfl, rfl⟩
  | rotate org remove pending generation => exact ⟨m', (mem_deleteWhere.mp h).1, rfl, rfl⟩
  | _ => exact ⟨m', h, rfl, rfl⟩

/-- Rewriting permissions keeps whose grants they are. -/
theorem mem_rewrite {writes : List ((ℕ × ℕ) × PermSet)} {grants : List ProjectGrant}
    {g : ProjectGrant} (h : g ∈ rewrite writes grants) : ∃ old ∈ grants, old.key = g.key := by
  induction writes generalizing grants with
  | nil => exact ⟨g, h, rfl⟩
  | cons write writes ih =>
    obtain ⟨mid, hmid, hkey⟩ := ih h
    rcases updateWhere_cases hmid with ⟨hin, _⟩ | ⟨old, hold, _, rfl⟩
    · exact ⟨mid, hin, hkey⟩
    · exact ⟨old, hold, hkey⟩

/-- A grant on a project is the one that is written, or was there. -/
theorem mem_projectGrants_execute {g : ProjectGrant} (h : g ∈ (execute db s).projectGrants) :
    s = .putProjectGrant g ∨ ∃ old ∈ db.projectGrants, old.key = g.key := by
  cases s with
  | putProjectGrant g' =>
    rcases mem_put.mp h with rfl | ⟨hin, _⟩
    · exact .inl rfl
    · exact .inr ⟨g, hin, rfl⟩
  | dropProjectGrant project user | rotate org remove pending generation =>
    exact .inr ⟨g, (mem_deleteWhere.mp h).1, rfl⟩
  | setPermissions writes | saveAccessRole r writes => exact .inr (mem_rewrite h)
  | dropAccessRole id | forgetDomainList id org =>
    rcases updateWhere_cases h with ⟨hin, _⟩ | ⟨old, hold, _, rfl⟩
    · exact .inr ⟨g, hin, rfl⟩
    · exact .inr ⟨old, hold, rfl⟩
  | _ => exact .inr ⟨g, h, rfl⟩

theorem mem_sessions_execute {session : Session} (h : session ∈ (execute db s).sessions) :
    ∃ old ∈ db.sessions, old.token = session.token ∧ old.user = session.user := by
  cases s with
  | touchSession token =>
    rcases updateWhere_cases h with ⟨hin, _⟩ | ⟨old, hold, _, rfl⟩
    · exact ⟨session, hin, rfl, rfl⟩
    · exact ⟨old, hold, rfl, rfl⟩
  | rotate org remove pending generation =>
    exact ⟨session, (mem_deleteWhere.mp h).1, rfl, rfl⟩
  | _ => exact ⟨session, h, rfl, rfl⟩

/-- A lock is the one that is taken, or was there, or is one that is extended. -/
theorem locks_execute_cases {l : Lock} (h : l ∈ (execute db s).locks) :
    (s = .putLock l.profile l.user ∧ l.token = db.fresh) ∨ l ∈ db.locks ∨
      (s = .extendLock l.profile l.user l.token ∧
        ∃ old ∈ db.locks, old.profile = l.profile ∧ old.user = l.user ∧ old.token = l.token) := by
  cases s with
  | putLock profile user =>
    rcases mem_put.mp h with rfl | ⟨hin, _⟩
    · exact .inl ⟨rfl, rfl⟩
    · exact .inr (.inl hin)
  | extendLock profile user token =>
    rcases updateWhere_cases h with ⟨hin, _⟩ | ⟨old, hold, hmatch, rfl⟩
    · exact .inr (.inl hin)
    · simp only [Bool.and_eq_true, decide_eq_true_eq] at hmatch
      obtain ⟨⟨rfl, rfl⟩, rfl⟩ := hmatch
      exact .inr (.inr ⟨rfl, old, hold, rfl, rfl, rfl⟩)
  | releaseLock profile token | dropLocks user profiles | purge profile
  | rotate org remove pending generation =>
    exact .inr (.inl (mem_deleteWhere.mp h).1)
  | _ => exact .inr (.inl h)

/-- A lock is the one that is taken, or was there with its token. -/
theorem mem_locks_execute {l : Lock} (h : l ∈ (execute db s).locks) :
    (s = .putLock l.profile l.user ∧ l.token = db.fresh) ∨
      ∃ old ∈ db.locks, old.profile = l.profile ∧ old.user = l.user ∧ old.token = l.token := by
  rcases locks_execute_cases h with hput | hin | ⟨_, hold⟩
  · exact .inl hput
  · exact .inr ⟨l, hin, rfl, rfl, rfl⟩
  · exact .inr hold

/-- Projects stay in their organisation. -/
theorem orgOfProject_execute {id org : ℕ} (h : orgOfProject (execute db s) id = some org) :
    id = db.fresh ∨ orgOfProject db id = some org := by
  cases s with
  | insertProject org' =>
    by_cases hid : db.fresh = id
    · exact .inl hid.symm
    · refine .inr ?_
      simpa [orgOfProject, execute, lookup, hid] using h
  | trashProject project ids =>
    refine .inr ?_
    have hfound : (lookup Project.id (updateWhere (fun p => p.id = project)
        (fun p => { p with deleted := true }) db.projects) id).map Project.org = some org := h
    rw [lookup_updateWhere (by simp), Option.map_map] at hfound
    obtain ⟨p, hp, horg⟩ := Option.map_eq_some_iff.mp hfound
    refine Option.map_eq_some_iff.mpr ⟨p, hp, ?_⟩
    rw [← horg, Function.comp_apply]
    split <;> rfl
  | _ => exact .inr h

theorem profile_execute {id : ℕ} {p : Profile} (h : (execute db s).profile id = some p) :
    id = db.fresh ∨ ∃ old, db.profile id = some old ∧ old.org = p.org := by
  have hupdate : ∀ {q : Profile → Bool} {f : Profile → Profile},
      lookup Profile.id (updateWhere q f db.profiles) id = some p → (∀ r, (f r).id = r.id) →
      (∀ r, (f r).org = r.org) → ∃ old, db.profile id = some old ∧ old.org = p.org := by
    intro q f hfound hid horg
    rw [lookup_updateWhere fun r _ => hid r] at hfound
    obtain ⟨old, hold, rfl⟩ := Option.map_eq_some_iff.mp hfound
    refine ⟨old, hold, ?_⟩
    split
    · exact (horg old).symm
    · rfl
  cases s with
  | insertProfile org project =>
    by_cases hid : db.fresh = id
    · exact .inl hid.symm
    · refine .inr ⟨p, ?_, rfl⟩
      simpa [Db.profile, execute, lookup, hid] using h
  | trash profile | trashProject project ids | moveProfiles ids project | restore profile =>
    exact .inr (hupdate h (fun _ => rfl) fun _ => rfl)
  | purge profile =>
    refine .inr ⟨p, ?_, rfl⟩
    have hfound : lookup Profile.id (deleteWhere (fun r => r.id = profile) db.profiles) id =
        some p := h
    obtain ⟨hmem, hid⟩ := lookup_some hfound
    have hne : p.id ≠ profile := by simpa using (mem_deleteWhere.mp hmem).2
    rwa [lookup_deleteWhere_of fun r hr => by simpa [hr, ← hid] using hne] at hfound
  | _ => exact .inr ⟨p, h, rfl⟩

/-- Ids are drawn before they are used. -/
structure Drawn (db : Db) : Prop where
  projects : ∀ p ∈ db.projects, p.id < db.fresh
  profiles : ∀ p ∈ db.profiles, p.id < db.fresh
  grants : ∀ g ∈ db.projectGrants, g.project < db.fresh
  locks : ∀ l ∈ db.locks, l.profile < db.fresh

theorem users_execute (db : Db) (s : Statement) : (execute db s).users = db.users := by
  cases s <;> rfl

theorem now_execute (db : Db) (s : Statement) : (execute db s).now = db.now := by
  cases s <;> rfl

/-- Ids are drawn and never given back. -/
theorem fresh_execute (db : Db) (s : Statement) : db.fresh ≤ (execute db s).fresh := by
  cases s <;> first | exact Nat.le.refl | exact Nat.le_succ _

theorem drawn_execute (hd : Drawn db) (hgrant : ∀ g, s = .putProjectGrant g → g.project < db.fresh)
    (hlock : ∀ profile user, s = .putLock profile user → profile < db.fresh) :
    Drawn (execute db s) := by
  have hle := fresh_execute db s
  refine ⟨?_, ?_, fun g hg => ?_, fun l hl => ?_⟩
  · cases s with
    | insertProject org =>
      intro p hp
      rcases List.mem_cons.mp hp with rfl | hin
      · exact Nat.lt_succ_self _
      · exact Nat.lt_succ_of_lt (hd.projects p hin)
    | trashProject project ids =>
      intro p hp
      rcases updateWhere_cases hp with ⟨hin, _⟩ | ⟨old, hold, _, rfl⟩
      · exact hd.projects p hin
      · exact hd.projects old hold
    | _ => exact fun p hp => Nat.lt_of_lt_of_le (hd.projects p hp) hle
  · cases s with
    | insertProfile org project =>
      intro p hp
      rcases List.mem_cons.mp hp with rfl | hin
      · exact Nat.lt_succ_self _
      · exact Nat.lt_succ_of_lt (hd.profiles p hin)
    | trash profile | trashProject project ids | moveProfiles ids project | restore profile =>
      intro p hp
      rcases updateWhere_cases hp with ⟨hin, _⟩ | ⟨old, hold, _, rfl⟩
      · exact hd.profiles p hin
      · exact hd.profiles old hold
    | purge profile => exact fun p hp => hd.profiles p (mem_deleteWhere.mp hp).1
    | _ => exact fun p hp => Nat.lt_of_lt_of_le (hd.profiles p hp) hle
  · rcases mem_projectGrants_execute hg with rfl | ⟨old, hold, hkey⟩
    · exact Nat.lt_of_lt_of_le (hgrant g rfl) hle
    · have hproject : old.project = g.project := congrArg Prod.fst hkey
      exact hproject ▸ Nat.lt_of_lt_of_le (hd.grants old hold) hle
  · rcases mem_locks_execute hl with ⟨heq, _⟩ | ⟨old, hold, hprofile, _⟩
    · exact Nat.lt_of_lt_of_le (hlock _ _ heq) hle
    · exact hprofile ▸ Nat.lt_of_lt_of_le (hd.locks old hold) hle

theorem drawn_step : Preserved step anyStep fun w => Drawn w.db := by
  intro w a w' hw _ hs
  have hmono : ∀ {n}, w.db.fresh ≤ n → Drawn { w.db with fresh := n } := fun hle =>
    ⟨fun p hp => Nat.lt_of_lt_of_le (hw.projects p hp) hle,
      fun p hp => Nat.lt_of_lt_of_le (hw.profiles p hp) hle,
      fun g hg => Nat.lt_of_lt_of_le (hw.grants g hg) hle,
      fun l hl => Nat.lt_of_lt_of_le (hw.locks l hl) hle⟩
  have hsucc := hmono (Nat.le_succ w.db.fresh)
  cases a with
  | found role =>
    cases hs
    have htwo := hmono (Nat.le_add_right w.db.fresh 2)
    exact ⟨htwo.projects, htwo.profiles, htwo.grants, htwo.locks⟩
  | enroll org role =>
    simp only [step, Option.ite_none_left_eq_some, Option.some.injEq] at hs
    obtain ⟨_, rfl⟩ := hs
    exact ⟨hsucc.projects, hsucc.profiles, hsucc.grants, hsucc.locks⟩
  | signIn user =>
    simp only [step, Option.ite_none_right_eq_some, Option.some.injEq] at hs
    obtain ⟨_, rfl⟩ := hs
    exact ⟨hsucc.projects, hsucc.profiles, hsucc.grants, hsucc.locks⟩
  | arrives token req =>
    obtain ⟨c, _, rfl⟩ := Option.map_eq_some_iff.mp hs
    exact hw
  | runs id =>
    obtain ⟨f, _, _, s, st, hnext, rfl⟩ := runs_some hs
    have hwrote := next_wrote hnext
    refine drawn_execute hw (fun g hg => ?_) fun profile user hlock => ?_
    · subst hg
      obtain ⟨org, horg, _⟩ := (Option.any_eq_true _ _).mp hwrote.2.1
      obtain ⟨p, hp, _⟩ := Option.map_eq_some_iff.mp horg
      obtain ⟨hmem, hid⟩ := lookup_some hp
      exact hid ▸ hw.projects p hmem
    · subst hlock
      obtain ⟨p, hp, _⟩ := (Option.any_eq_true _ _).mp hwrote.2.2.1
      obtain ⟨hmem, hid⟩ := lookup_some hp
      exact hid ▸ hw.profiles p hmem
  | signOut token | lost id | tick seconds =>
    cases hs
    exact ⟨hw.projects, hw.profiles, hw.grants, hw.locks⟩

/-- Members are users. -/
def MembersAreUsers (w : World) : Prop := ∀ m ∈ w.db.members, m.user < w.db.users

theorem membersAreUsers_step : Preserved step anyStep MembersAreUsers := by
  intro w a w' hw _ hs
  have hjoin : ∀ db : Db, (∀ m ∈ db.members, m.user < db.users) → ∀ org role,
      ∀ m ∈ (join db org role).members, m.user < (join db org role).users := by
    intro db hdb org role m hm
    rcases List.mem_cons.mp hm with rfl | hin
    · exact Nat.lt_succ_self _
    · exact Nat.lt_succ_of_lt (hdb m hin)
  cases a with
  | found role =>
    cases hs
    exact hjoin { draw w.db with orgs := ⟨w.db.fresh, 1⟩ :: w.db.orgs } hw w.db.fresh role
  | enroll org role =>
    simp only [step, Option.ite_none_left_eq_some, Option.some.injEq] at hs
    obtain ⟨_, rfl⟩ := hs
    exact hjoin w.db hw org role
  | signIn user =>
    simp only [step, Option.ite_none_right_eq_some, Option.some.injEq] at hs
    obtain ⟨_, rfl⟩ := hs
    exact hw
  | arrives token req =>
    obtain ⟨c, _, rfl⟩ := Option.map_eq_some_iff.mp hs
    exact hw
  | runs id =>
    obtain ⟨f, _, _, s, st, _, rfl⟩ := runs_some hs
    intro m' hm'
    obtain ⟨m, hm, huser, _⟩ := mem_members_execute hm'
    rw [← huser]
    exact (users_execute w.db s).symm ▸ hw m hm
  | signOut token | lost id | tick seconds =>
    cases hs
    exact hw

end Tables

end FuryBrowser.TeamSteps
