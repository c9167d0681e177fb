import FuryBrowser.ProfileRuns

/-!
# A profile's project and proxy are its organisation's

Handlers look ids up in the organisation of whoever asks. For somebody with whom a profile
of another organisation is shared that is not the profile's, and an edit writes the proxy
they name. Where every edit comes from the profile's own organisation, a profile's project
and proxy are rows of its own organisation.
-/

namespace FuryBrowser.OwnRows

open GuardedRuns RowTable Permissions InFlight ProfileRequests ProfileRuns
open TeamTables (Project)
open TeamRequests (Caller)

/-- A project is a row of this organisation. -/
def OwnProject (db : Db) (org project : ℕ) : Prop :=
  ∃ q ∈ db.projects, q.id = project ∧ q.org = org

/-- A proxy is a row of this organisation. -/
def OwnProxy (db : Db) (org proxy : ℕ) : Prop := ∃ x ∈ db.proxies, x.id = proxy ∧ x.org = org

/-- A profile's project, and its proxy if it has one, are rows of its own organisation. -/
structure AtHome (db : Db) (p : Profile) : Prop where
  project : OwnProject db p.org p.project
  proxy : ∀ x, p.proxy = some x → OwnProxy db p.org x

/-- The profile that a statement edits. -/
def edits : Stage → Option ℕ
  | .updating profile _ _ => some profile
  | _ => none

/-- Whoever edits a profile is of its organisation. -/
def Guard (w : World) : Label → Prop
  | .runs id _ => ∀ f ∈ w.flights.all, f.id = id → ∀ p ∈ w.db.profiles,
      edits f.stage = some p.id → p.deleted = false → p.org = f.caller.org
  | _ => True

instance : DecidableRel Guard := fun w l => by
  rcases l with _ | _ | _ | _ <;> dsimp only [Guard] <;> infer_instance

/-- Every profile is at home. -/
structure Inv (db : Db) : Prop where
  proper : Proper db
  atHome : ∀ p ∈ db.profiles, AtHome db p

/-- What a handler has found, and carries, is of its caller's organisation. -/
def Carries (db : Db) (c : Caller) : Stage → Prop
  | .createCounts row => OwnProject db c.org row.project
  | .createChecks row => OwnProject db c.org row.project
  | .createProxy row => OwnProject db c.org row.project
  | .cloneRequires row _ =>
    OwnProject db c.org row.project ∧ ∀ x, row.proxy = some x → OwnProxy db c.org x
  | .inserting row _ =>
    OwnProject db c.org row.project ∧ ∀ x, row.proxy = some x → OwnProxy db c.org x
  | .updating _ proxy _ => OwnProxy db c.org proxy
  | .moving _ project moved => OwnProject db c.org project ∧
      ∀ id ∈ moved, id < db.fresh ∧ ∀ p ∈ db.profiles, p.id = id → p.org = c.org
  | _ => True

section Kept

variable {db db' : Db} {c : Caller} {org id : ℕ}

theorem OwnProject.kept (hk : Kept db db') (h : OwnProject db org id) : OwnProject db' org id := by
  obtain ⟨q, hq, rfl, rfl⟩ := h
  exact hk.projects q hq

theorem OwnProxy.kept (hk : Kept db db') (h : OwnProxy db org id) : OwnProxy db' org id := by
  obtain ⟨x, hx, rfl, rfl⟩ := h
  exact hk.proxies x hx

theorem AtHome.kept {p : Profile} (hk : Kept db db') (h : AtHome db p) : AtHome db' p :=
  ⟨h.project.kept hk, fun x hx => (h.proxy x hx).kept hk⟩

/-- What a handler carries stays true over every statement of every other. -/
theorem Carries.kept {stage : Stage} (hk : Kept db db') (h : Carries db c stage) :
    Carries db' c stage := by
  cases stage with
  | createCounts row => exact OwnProject.kept hk h
  | createChecks row => exact OwnProject.kept hk h
  | createProxy row => exact OwnProject.kept hk h
  | cloneRequires row count => exact ⟨h.1.kept hk, fun x hx => (h.2 x hx).kept hk⟩
  | inserting row count => exact ⟨h.1.kept hk, fun x hx => (h.2 x hx).kept hk⟩
  | updating profile proxy overrides => exact OwnProxy.kept hk h
  | moving todo project moved =>
    refine ⟨h.1.kept hk, fun id hid => ?_⟩
    obtain ⟨hdrawn, horg⟩ := h.2 id hid
    refine ⟨Nat.lt_of_lt_of_le hdrawn hk.fresh, fun p' hp' heq => ?_⟩
    rcases hk.profiles p' hp' with hnew | ⟨p, hp, hsame, horg', _⟩
    · -- A new row has an id that was not drawn before.
      exact absurd (heq ▸ hnew) (Nat.not_le_of_lt hdrawn)
    · exact horg'.trans (horg p hp (hsame.symm.trans heq))
  | _ => trivial

end Kept

section Checks

variable {conf : Config} {db : Db} {c : Caller} {a : Access} {stage : Stage}

/-- A permission on a project is one on a project of the caller's organisation. -/
theorem ownProject_of_permission {project : ℕ} {perm : Perm}
    (h : (db.permissionsFor c project a).has perm = true) : OwnProject db c.org project := by
  unfold Db.permissionsFor at h
  split at h
  next hany =>
    obtain ⟨q, hq, horg⟩ := (Option.any_eq_true ..).mp hany
    obtain ⟨hlookup, _⟩ := Option.filter_eq_some_iff.mp hq
    obtain ⟨hin, hid⟩ := lookup_some hlookup
    exact ⟨q, hin, hid, of_decide_eq_true horg⟩
  next =>
    rw [has_none] at h
    cases h

theorem ownProxy_of_usable {proxy : ℕ} (h : db.usable c.org proxy = true) :
    OwnProxy db c.org proxy := by
  obtain ⟨x, hl, hx⟩ := (Option.any_eq_true ..).mp h
  obtain ⟨hin, hid⟩ := lookup_some hl
  simp only [Bool.and_eq_true, decide_eq_true_eq] at hx
  exact ⟨x, hin, hid, hx.1.1⟩

/-- A request that may begin has found its project. -/
theorem carries_begins (req : Request) (h : begins conf db c a req = some stage) :
    Carries db c stage := by
  cases req with
  | createProfile row =>
    obtain ⟨hok, rfl⟩ := goOn_some h
    exact ownProject_of_permission (Bool.and_eq_true_iff.mp hok).1
  | moveProfiles ids project =>
    obtain ⟨hok, rfl⟩ := goOn_some h
    exact ⟨ownProject_of_permission (Bool.and_eq_true_iff.mp hok).2,
      fun id hid => absurd hid List.not_mem_nil⟩
  | _ =>
    obtain ⟨_, rfl⟩ := goOn_some h
    trivial

/-- An edit has found nothing yet that it writes. -/
theorem carries_editReads {profile proxy : ℕ} {overrides : Option Machines.MachineOverrides}
    {perms : PermSet} (h : editReads db profile proxy overrides perms = some stage) :
    Carries db c stage := by
  obtain ⟨p, _, h⟩ := Option.bind_eq_some_iff.mp h
  split at h
  · cases h
  · dsimp only at h
    split at h
    · obtain ⟨_, rfl⟩ := goOn_some h
      trivial
    · cases h
      trivial

/-- The profiles that are moved are the caller's organisation's. -/
theorem carries_moveNext (hp : Proper db) {id project : ℕ} {todo moved : List ℕ}
    (hc : Carries db c (.moving (id :: todo) project moved))
    (h : moveNext db c a id todo project moved = some stage) : Carries db c stage := by
  obtain ⟨p, hfound, h⟩ := Option.bind_eq_some_iff.mp h
  obtain ⟨hlookup, hown⟩ := Option.filter_eq_some_iff.mp hfound
  obtain ⟨hin, rfl⟩ := lookup_some hlookup
  split at h
  · cases h
    exact hc
  · obtain ⟨_, rfl⟩ := goOn_some h
    refine ⟨hc.1, fun id hid => ?_⟩
    rcases List.mem_cons.mp hid with rfl | hrest
    · refine ⟨hp.freshProfile p hin, fun p' hp' heq => ?_⟩
      rw [hp.profiles.eq hp' hin heq]
      exact of_decide_eq_true (Bool.and_eq_true_iff.mp hown).1
    · exact hc.2 id hrest

/-- What a handler goes on with is of its caller's organisation. -/
theorem carries_next (hi : Inv db) (hc : Carries db c stage) {stage' : Stage}
    (h : (next conf db c a stage).2 = some stage') :
    Carries (next conf db c a stage).1 c stage' := by
  cases stage with
  | arrived req => exact carries_begins req h
  | createCounts row =>
    obtain ⟨_, rfl⟩ := goOn_some h
    exact hc
  | createChecks row =>
    obtain ⟨_, rfl⟩ := goOn_some h
    exact hc
  | createProxy row =>
    obtain ⟨hok, rfl⟩ := goOn_some h
    refine ⟨hc, fun x hx => ?_⟩
    rw [hx, Option.all_some] at hok
    exact ownProxy_of_usable hok
  | cloneReads profile count =>
    obtain ⟨p, hfound, rfl⟩ := Option.map_eq_some_iff.mp h
    obtain ⟨hlookup, hown⟩ := Option.filter_eq_some_iff.mp hfound
    have horg : p.org = c.org := of_decide_eq_true (Bool.and_eq_true_iff.mp hown).1
    have hhome := hi.atHome p (lookup_some hlookup).1
    exact ⟨horg ▸ hhome.project, fun x hx => horg ▸ hhome.proxy x hx⟩
  | cloneRequires row count =>
    obtain ⟨_, rfl⟩ := goOn_some h
    exact hc
  | inserting row count =>
    cases count with
    | zero => cases h
    | succ n =>
      cases h
      exact Carries.kept kept_next hc
  | editReads profile proxy overrides perms => exact carries_editReads h
  | editChecks profile proxy personaId overrides =>
    obtain ⟨_, rfl⟩ := goOn_some h
    trivial
  | editProxy profile proxy overrides =>
    obtain ⟨hok, rfl⟩ := goOn_some h
    exact ownProxy_of_usable hok
  | moving todo project moved =>
    cases todo with
    | nil => cases h
    | cons id todo => exact carries_moveNext hi.proper hc h
  | deletingCounts id =>
    obtain ⟨_, rfl⟩ := goOn_some h
    trivial
  | _ => cases h

end Checks

section Steps

variable {conf : Config} {db : Db} {c : Caller} {a : Access} {stage : Stage}

/-- Rows that are only put in the trash, taken out of it or deleted stay at home. -/
theorem atHome_updated {p : Profile → Bool} {f : Profile → Profile}
    (h : ∀ r ∈ db.profiles, AtHome db r)
    (hf : ∀ r ∈ db.profiles, p r = true → AtHome db r → AtHome db (f r)) :
    ∀ r ∈ (updateProfiles db p f).profiles, AtHome db r := by
  intro r hr
  rcases updateWhere_cases hr with ⟨hin, _⟩ | ⟨old, hold, hp, rfl⟩
  · exact h r hin
  · exact hf old hold hp (h old hold)

/-- Every profile is at home after a statement. -/
theorem inv_next (hi : Inv db) (hc : Carries db c stage)
    (hg : ∀ p ∈ db.profiles, edits stage = some p.id → p.deleted = false → p.org = c.org) :
    Inv (next conf db c a stage).1 := by
  have hk : Kept db (next conf db c a stage).1 := kept_next
  suffices hhome : ∀ p ∈ (next conf db c a stage).1.profiles, AtHome db p from
    ⟨proper_next hi.proper, fun p hp => (hhome p hp).kept hk⟩
  cases stage with
  | inserting row count =>
    cases count with
    | zero => exact hi.atHome
    | succ n =>
      intro p hp
      rcases List.mem_cons.mp hp with rfl | hin
      · exact ⟨hc.1, hc.2⟩
      · exact hi.atHome p hin
  | updating profile proxy overrides =>
    refine atHome_updated hi.atHome fun p hp hmatch hhome => ⟨hhome.project, fun x hx => ?_⟩
    simp only [Bool.and_eq_true, decide_eq_true_eq, Bool.not_eq_true'] at hmatch
    cases hx
    rw [show p.org = c.org from hg p hp (hmatch.1 ▸ rfl) hmatch.2]
    exact hc
  | trashing profile =>
    exact atHome_updated hi.atHome fun p hp _ hhome => ⟨hhome.project, hhome.proxy⟩
  | restoring profile =>
    exact atHome_updated hi.atHome fun p hp _ hhome => ⟨hhome.project, hhome.proxy⟩
  | purging profile => exact fun p hp => hi.atHome p (mem_deleteWhere.mp hp).1
  | moving todo project moved =>
    cases todo with
    | nil =>
      refine atHome_updated hi.atHome fun p hp hmatch hhome => ⟨?_, hhome.proxy⟩
      rw [show p.org = c.org from (hc.2 p.id (of_decide_eq_true hmatch)).2 p hp rfl]
      exact hc.1
    | cons id todo => exact hi.atHome
  | trashingProject project =>
    exact atHome_updated hi.atHome fun p hp _ hhome => ⟨hhome.project, hhome.proxy⟩
  | _ => exact hi.atHome

end Steps

/-- Profiles and requests stay at home over a guarded step. -/
theorem sound_step (conf : Config) : Preserved (step conf) Guard (Sound Inv Carries) := by
  refine sound_preserved (fun _ _ _ _ => trivial) ?_ ?_
  · intro w f a hw hf hg
    refine ⟨inv_next hw.db (hw.own f hf) (hg f hf rfl), fun stage hstage => ?_, fun g hin _ => ?_⟩
    · exact carries_next hw.db (hw.own f hf) hstage
    · exact (hw.own g hin).kept kept_next
  · intro w x hw
    have hk := kept_change w.db x
    have hprofiles : (change w.db x).profiles = w.db.profiles := by cases x <;> rfl
    refine ⟨⟨proper_change hw.db.proper x, fun p hp => ?_⟩, fun f hf => (hw.own f hf).kept hk⟩
    exact (hw.db.atHome p (hprofiles ▸ hp)).kept hk

/-- Over every run in which whoever edits a profile is of its organisation, every profile's
project and proxy are rows of the profile's own organisation. -/
theorem profiles_at_home (conf : Config) {w : World}
    (hr : Reached (fun w => w.flights.all = [] ∧ Inv w.db) (step conf) Guard w) :
    ∀ p ∈ w.db.profiles, AtHome w.db p := by
  have hsound : Sound Inv Carries w := by
    refine hr.invariant (Sound Inv Carries) ?_ (sound_step conf)
    rintro w ⟨hnone, hinv⟩
    exact .of_idle hinv hnone
  exact hsound.db.atHome

/-- Two organisations, each with a project and a proxy, and a profile of the first. -/
def neighbours : World where
  db :=
    { projects := [⟨1, 1, false⟩, ⟨2, 2, false⟩]
      personas := []
      proxies := [⟨3, 1, true, false⟩, ⟨4, 2, true, false⟩, ⟨5, 1, true, false⟩]
      profiles := [⟨⟨1, "win11", .default, some 3⟩, 6, 1, false⟩]
      fresh := 7 }
  flights := .none

theorem inv_neighbours : Inv neighbours.db := by
  refine ⟨⟨?_, ?_, ?_, ?_, ?_, ?_, ?_⟩, fun p hp => ?_⟩
  all_goals try unfold KeyUnique
  all_goals try decide
  rcases List.mem_singleton.mp hp with rfl
  refine ⟨⟨⟨1, 1, false⟩, by decide, rfl, rfl⟩, fun x hx => ?_⟩
  cases hx
  exact ⟨⟨3, 1, true, false⟩, by decide, rfl, rfl⟩

/-- No machines matter here. -/
def anyConfig : Config := ⟨⟨[], ["en-US"], String.toLower⟩, none⟩

/-- Somebody of an organisation edits profile 6 with what is shared with them of it, or what
their own organisation grants them. -/
def editsProxy (c : Caller) (granted shared : PermSet) (proxy : ℕ) : List Label :=
  .arrives c (.arrived (.editProfile 6 proxy none)) ::
    List.replicate 4 (.runs 0 ⟨granted, shared, false⟩)

/-- What it takes to edit a profile and its proxy. -/
def editing : PermSet := .fromIter [.view, .editProfile, .editProxy]

/-- A member of the first organisation gives the profile another proxy of theirs. -/
theorem profiles_at_home_edited :
    ∃ w', run (step anyConfig) neighbours (editsProxy ⟨8, 1, .member⟩ editing .none 5) = some w' ∧
      (w'.db.profiles.map fun p => p.proxy) = [some 5] ∧ ∀ p ∈ w'.db.profiles, AtHome w'.db p := by
  have hrun : ((run (step anyConfig) neighbours
      (editsProxy ⟨8, 1, .member⟩ editing .none 5)).map
        fun w' => w'.db.profiles.map fun p => p.proxy) = some [some 5] := by decide
  obtain ⟨w', h, hproxy⟩ := Option.map_eq_some_iff.mp hrun
  have hstart :
      Reached (fun w => w.flights.all = [] ∧ Inv w.db) (step anyConfig) Guard neighbours :=
    .start ⟨rfl, inv_neighbours⟩
  exact ⟨w', h, hproxy, profiles_at_home anyConfig (hstart.run _ (by decide) h)⟩

/-- Somebody of the second organisation, with whom the profile is shared, gives it a proxy of
their own organisation. -/
theorem grantee_brings_own_proxy :
    ¬ ∀ (conf : Config) (w : World),
      Reached (fun w => w.flights.all = [] ∧ Inv w.db) (step conf) anyStep w →
        ∀ p ∈ w.db.profiles, AtHome w.db p := by
  intro hall
  have hrun : ((run (step anyConfig) neighbours (editsProxy ⟨9, 2, .member⟩ .none editing 4)).map
      fun w' => (w'.db.profiles, w'.db.proxies)) =
      some ([⟨⟨1, "win11", .default, some 4⟩, 6, 1, false⟩],
        [⟨3, 1, true, false⟩, ⟨4, 2, true, false⟩, ⟨5, 1, true, false⟩]) := by decide
  obtain ⟨w', h, htables⟩ := Option.map_eq_some_iff.mp hrun
  obtain ⟨hprofiles, hproxies⟩ := Prod.mk.inj htables
  have hstart : Reached (fun w => w.flights.all = [] ∧ Inv w.db) (step anyConfig) anyStep
      neighbours := .start ⟨rfl, inv_neighbours⟩
  have hreached := hstart.run_any _ h
  have hhome := hall anyConfig w' hreached ⟨⟨1, "win11", .default, some 4⟩, 6, 1, false⟩
    (by rw [hprofiles]; exact List.mem_singleton.mpr rfl)
  obtain ⟨x, hx, hid, horg⟩ := hhome.proxy 4 rfl
  rw [hproxies] at hx
  -- Proxy 4 is the second organisation's.
  revert x
  decide

end FuryBrowser.OwnRows
