import FuryBrowser.ProfileHomes

/-!
# A profile that is open

Deleting a profile, deleting its project, moving it and taking its lock each look
first and write in another statement, and no row is held in between. Two of them
that overlap both go through: the profile is gone from under an open browser, or a
lock is granted on a profile in the trash. A purge does not look at the lock at all,
and a heartbeat takes up a lock that has lapsed.

Nothing of this happens when such requests do not overlap, no purge starts on an
open profile, and no lapsed lock is taken up while its profile is being removed.
-/

namespace FuryBrowser.OpenProfiles

open GuardedRuns RowTable Permissions TeamTables TeamRequests TeamRuns TeamSteps ProfileHomes
open OrgKeys (Role)
open ProfileLocks (Lock)

/-- A request that has passed its check is about to take a profile away: into the
trash, into another project, or for good. -/
def removes (db : Db) (profile : ℕ) : Stage → Bool
  | .trashing p | .purging p => p = profile
  | .projectChecked project => (db.profile profile).any fun r => r.project = project
  | .projectMarked project ids =>
    profile ∈ ids || (db.profile profile).any fun r => r.project = project
  | .moving _ _ written => profile ∈ written
  | .moveChecked p _ _ written => p = profile || profile ∈ written
  | _ => false

/-- A request that has passed its check is about to take the lock of a profile. -/
def takes (profile : ℕ) : Stage → Bool
  | .locking p _ => p = profile
  | _ => false

/-- A request that has passed its check is about to put a profile into a project. -/
def enters (db : Db) (project : ℕ) : Stage → Bool
  | .creatingProfile p | .moving _ p _ | .moveChecked _ _ p _ => p = project
  | .restoring q => (db.profile q).any fun r => r.project = project
  | _ => false

/-- A request that has passed its check is about to delete a project. -/
def deletes (project : ℕ) : Stage → Bool
  | .projectChecked p | .projectMarked p _ => p = project
  | _ => false

section Held

variable (w : World)

/-- A profile is being taken away. -/
def beingRemoved (profile : ℕ) : Bool := w.flights.any fun f => removes w.db profile f.stage

/-- Its lock is being taken. -/
def beingTaken (profile : ℕ) : Bool := w.flights.any fun f => takes profile f.stage

/-- A project is being deleted. -/
def beingDeleted (project : ℕ) : Bool := w.flights.any fun f => deletes project f.stage

/-- Something is being put into it. -/
def beingEntered (project : ℕ) : Bool := w.flights.any fun f => enters w.db project f.stage

/-- A request that passes a check overlaps with none that it would race, and a purge
starts on a profile that is not open. -/
def apart : Stage → Bool
  | .locking profile _ => !beingRemoved w profile
  | .trashing profile => !beingTaken w profile
  | .purging profile => !beingTaken w profile && !w.db.isOpen profile
  | .projectChecked project => !beingEntered w project &&
      w.db.profiles.all fun r => r.project ≠ project || !beingTaken w r.id
  | .creatingProfile project | .moving _ project _ => !beingDeleted w project
  | .moveChecked profile _ project _ => !beingTaken w profile && !beingDeleted w project
  | .restoring profile => (w.db.profile profile).all fun r => !beingDeleted w r.project
  | _ => true

/-- A heartbeat finds no lock to extend on a profile that is being taken away. -/
def beatsApart (f : Flight) : Bool :=
  match f.stage with
  | .beating profile token => !beingRemoved w profile || w.db.locks.all fun l =>
      !(l.profile = profile && l.user = f.caller.user && l.token = token)
  | _ => true

/-- The requests that race each other do not overlap. -/
def Apart : Label → Prop
  | .runs id => ∀ f ∈ lookup Flight.id w.flights id,
      (beatsApart w f && (next w f).all fun r => r.2.all (apart w)) = true
  | _ => True

end Held

instance : DecidableRel Apart := fun w a => by
  rcases a with _ | _ <;> dsimp only [Apart] <;> infer_instance

/-- What is promised of a step. -/
structure Kept (w w' : World) : Prop where
  /-- An open profile stays, in its project and out of the trash. -/
  stays : ∀ profile row, w.db.profile profile = some row → w.db.isOpen profile = true →
    ∃ row', w'.db.profile profile = some row' ∧ row'.project = row.project ∧
      (row.deleted = false → row'.deleted = false)
  /-- A lock that is granted is on a profile that is not in the trash, in a project that
  is not deleted. -/
  granted : ∀ l ∈ w'.db.locks, (∀ old ∈ w.db.locks, old.token ≠ l.token) →
    ∃ row, w'.db.liveProfile l.profile = some row ∧ (w'.db.project row.project).isSome = true
  /-- A profile that is being purged is not open. Its bundles go before its row. -/
  purges : ∀ f ∈ w.flights, ∀ profile, f.stage = .purging profile → w.db.isOpen profile = false

/-- What a request between its check and its write can rely on. -/
def Checked (db : Db) (c : Caller) : Stage → Prop
  | .locking profile _ => (db.liveProfile profile).isSome = true
  | .trashing profile | .purging profile => db.isOpen profile = false
  | .projectChecked project => db.inOrg c.user c.org = true →
      (∀ org, orgOfProject db project = some org → org = c.org) →
      ∀ r ∈ db.profiles, r.project = project → db.isOpen r.id = false
  | .projectMarked project ids => db.inOrg c.user c.org = true →
      (∀ org, orgOfProject db project = some org → org = c.org) →
      (∀ id ∈ ids, db.isOpen id = false) ∧
        ∀ r ∈ db.profiles, r.project = project → r.deleted = false → r.id ∈ ids
  | .moving _ project written => (db.project project).isSome = true ∧
      ∀ id ∈ written, db.isOpen id = false
  | .moveChecked profile _ project written => (db.project project).isSome = true ∧
      ∀ id ∈ profile :: written, db.isOpen id = false
  | .creatingProfile project => (db.project project).isSome = true
  | .restoring profile => ∀ r, db.profile profile = some r → (db.project r.project).isSome = true
  | _ => True

/-- What every run of requests that keep apart keeps. -/
structure Inv (w : World) : Prop where
  /-- Profiles are where they belong. -/
  homes : Homes w
  /-- A profile that is not in the trash is in a project that is not deleted. -/
  live : ∀ r ∈ w.db.profiles, r.deleted = false → (w.db.project r.project).isSome = true
  /-- What was checked still holds. -/
  checked : ∀ f ∈ w.flights, Checked w.db f.caller f.stage
  /-- Nobody takes the lock of a profile that somebody is taking away. -/
  locks : ∀ f ∈ w.flights, ∀ g ∈ w.flights, ∀ profile, takes profile f.stage = true →
    removes w.db profile g.stage = false
  /-- Nobody puts anything into a project that somebody is deleting. -/
  projects : ∀ f ∈ w.flights, ∀ g ∈ w.flights, ∀ project, enters w.db project f.stage = true →
    deletes project g.stage = false

section Tables

variable {db : Db} {s : Statement} {profile project : ℕ}

theorem isOpen_false : db.isOpen profile = false ↔
    ∀ l ∈ db.locks, l.profile = profile → l.expires ≤ db.now := by
  simp only [Db.isOpen, List.any_eq_false, Bool.and_eq_true, decide_eq_true_eq, not_and, not_lt]

/-- A project is deleted by its own deletion only. -/
theorem project_execute (hd : Drawn db) (h : (db.project project).isSome = true)
    (hkeep : ∀ ids, s ≠ .trashProject project ids) :
    ((execute db s).project project).isSome = true := by
  obtain ⟨p, hp⟩ := Option.isSome_iff_exists.mp h
  obtain ⟨hlookup, hlive⟩ := Option.filter_eq_some_iff.mp hp
  obtain ⟨hmem, hid⟩ := lookup_some hlookup
  cases s with
  | insertProject org =>
    have hne : db.fresh ≠ project := fun heq => Nat.lt_irrefl _ (heq ▸ hid ▸ hd.projects p hmem)
    have hfound : lookup Project.id (⟨db.fresh, org, false⟩ :: db.projects) project = some p := by
      unfold lookup at hlookup ⊢
      rw [List.find?_cons_of_neg (by simpa using hne)]
      exact hlookup
    refine Option.isSome_iff_exists.mpr ⟨p, ?_⟩
    exact Option.filter_eq_some_iff.mpr ⟨hfound, hlive⟩
  | trashProject trashed ids =>
    have hne : p.id ≠ trashed := by
      rintro rfl
      exact hkeep ids (by rw [hid])
    have hfound : lookup Project.id (updateWhere (fun p => p.id = trashed)
        (fun p => { p with deleted := true }) db.projects) project = some p := by
      rw [lookup_updateWhere (by simp), hlookup]
      simp [hne]
    refine Option.isSome_iff_exists.mpr ⟨p, ?_⟩
    exact Option.filter_eq_some_iff.mpr ⟨hfound, hlive⟩
  | _ => exact h

/-- A profile that no statement takes away stays. -/
theorem profile_stays {row : Profile} (hd : Drawn db) (h : db.profile profile = some row)
    (htrash : s ≠ .trash profile) (hproject : ∀ other ids, s = .trashProject other ids →
      profile ∉ ids) (hmove : ∀ ids other, s = .moveProfiles ids other → profile ∉ ids)
    (hpurge : s ≠ .purge profile) :
    ∃ row', (execute db s).profile profile = some row' ∧ row'.project = row.project ∧
      (row.deleted = false → row'.deleted = false) := by
  obtain ⟨hmem, hid⟩ := lookup_some h
  have hupdate : ∀ {q : Profile → Bool} {f : Profile → Profile}, q row = false →
      (∀ r, (f r).id = r.id) → lookup Profile.id (updateWhere q f db.profiles) profile =
        some row := by
    intro q f hq hf
    have hlookup : lookup Profile.id db.profiles profile = some row := h
    rw [lookup_updateWhere fun r _ => hf r, hlookup]
    simp [hq]
  cases s with
  | insertProfile org other =>
    have hne : db.fresh ≠ profile := fun heq => Nat.lt_irrefl _ (heq ▸ hid ▸ hd.profiles row hmem)
    refine ⟨row, ?_, rfl, id⟩
    have hlookup : lookup Profile.id db.profiles profile = some row := h
    unfold lookup at hlookup
    exact (List.find?_cons_of_neg (by simpa using hne)).trans hlookup
  | trash trashed =>
    have hne : row.id ≠ trashed := fun heq => htrash (by rw [← heq, hid])
    exact ⟨row, hupdate (by simpa using hne) fun _ => rfl, rfl, id⟩
  | trashProject other ids =>
    exact ⟨row, hupdate (by simpa [hid] using hproject other ids rfl) fun _ => rfl, rfl, id⟩
  | moveProfiles ids other =>
    exact ⟨row, hupdate (by simpa [hid] using hmove ids other rfl) fun _ => rfl, rfl, id⟩
  | restore restored =>
    have hlookup : lookup Profile.id db.profiles profile = some row := h
    have hrestored : lookup Profile.id (updateWhere (fun p => p.id = restored)
        (fun p => { p with deleted := false }) db.profiles) profile =
        some (if row.id = restored then { row with deleted := false } else row) := by
      rw [lookup_updateWhere (by simp), hlookup]
      simp
    refine ⟨_, hrestored, ?_, ?_⟩
    · split <;> rfl
    · split <;> simp
  | purge purged =>
    have hne : row.id ≠ purged := fun heq => hpurge (by rw [← heq, hid])
    exact ⟨row, lookup_deleteWhere h (by simpa using hne), rfl, id⟩
  | _ => exact ⟨row, h, rfl, id⟩

/-- What a request relies on does not change with anything else, nor as time passes. -/
theorem Checked.mono {db' : Db} {c : Caller} {stage : Stage} (h : Checked db c stage)
    (hprofiles : db'.profiles = db.profiles) (hprojects : db'.projects = db.projects)
    (hlocks : db'.locks = db.locks) (hnow : db.now ≤ db'.now)
    (hin : db'.inOrg c.user c.org = true → db.inOrg c.user c.org = true) :
    Checked db' c stage := by
  have hclosed : ∀ p, db.isOpen p = false → db'.isOpen p = false := by
    intro p hp
    refine isOpen_false.mpr fun l hl heq => ?_
    exact (isOpen_false.mp hp l (hlocks ▸ hl) heq).trans hnow
  have hproject : ∀ p, db'.project p = db.project p := by
    intro p
    rw [Db.project, hprojects, Db.project]
  have hprofile : ∀ p, db'.profile p = db.profile p := by
    intro p
    rw [Db.profile, hprofiles, Db.profile]
  have horg : ∀ p, orgOfProject db' p = orgOfProject db p := by
    intro p
    rw [orgOfProject, hprojects, orgOfProject]
  cases stage with
  | locking p force => simpa only [Checked, Db.liveProfile, hprofile] using h
  | trashing p | purging p => exact hclosed p h
  | projectChecked p =>
    intro hinside horg' r hr hrp
    exact hclosed r.id (h (hin hinside) (horg p ▸ horg') r (hprofiles ▸ hr) hrp)
  | projectMarked p ids =>
    intro hinside horg'
    obtain ⟨hids, hall⟩ := h (hin hinside) (horg p ▸ horg')
    exact ⟨fun id hid => hclosed id (hids id hid), fun r hr => hall r (hprofiles ▸ hr)⟩
  | moving todo p written =>
    exact ⟨(hproject p).symm ▸ h.1, fun id hid => hclosed id (h.2 id hid)⟩
  | moveChecked q todo p written =>
    exact ⟨(hproject p).symm ▸ h.1, fun id hid => hclosed id (h.2 id hid)⟩
  | creatingProfile p => exact (congrArg Option.isSome (hproject p)).trans h
  | restoring p =>
    intro r hr
    exact (hproject r.project).symm ▸ h r (hprofile p ▸ hr)
  | _ => trivial

end Tables

section Statements

variable {w : World} {f g : Flight} {s : Statement} {st : Option Stage} {profile project : ℕ}

/-- A profile stays unless the request that runs is taking it away. -/
theorem Inv.stays (hw : Inv w) (hnext : next w f = some (s, st))
    (hnot : removes w.db profile f.stage = false) {row : Profile}
    (h : w.db.profile profile = some row) :
    ∃ row', (execute w.db s).profile profile = some row' ∧ row'.project = row.project ∧
      (row.deleted = false → row'.deleted = false) := by
  have hwrote := next_wrote hnext
  refine profile_stays hw.homes.drawn h ?_ ?_ ?_ ?_
  · rintro rfl
    simp [removes, hwrote.2.1] at hnot
  · rintro other ids rfl hin
    simp [removes, hwrote.2.1, hin] at hnot
  · rintro ids other rfl hin
    simp [removes, hwrote.2, hin] at hnot
  · rintro rfl
    simp [removes, hwrote.2.1] at hnot

/-- A profile that is being taken away is not opened. -/
theorem Inv.closed (hw : Inv w) (hf : f ∈ w.flights) (hg : g ∈ w.flights)
    (hnext : next w f = some (s, st)) (hbeats : beatsApart w f = true)
    (hremoves : removes w.db profile g.stage = true) (h : w.db.isOpen profile = false) :
    (execute w.db s).isOpen profile = false := by
  have hwrote := next_wrote hnext
  refine isOpen_false.mpr fun l hl hprofile => ?_
  rw [now_execute]
  rcases locks_execute_cases hl with
    ⟨rfl, _⟩ | hin | ⟨rfl, old, hold, holdProfile, holdUser, holdToken⟩
  · obtain ⟨_, _, _, force, hstage, _⟩ := hwrote
    have hfree := hw.locks f hf g hg profile (by simp [takes, hstage, hprofile])
    cases hfree.symm.trans hremoves
  · exact isOpen_false.mp h l hin hprofile
  · obtain ⟨_, huser, hstage, _⟩ := hwrote
    have hremoved : beingRemoved w l.profile = true :=
      List.any_eq_true.mpr ⟨g, hg, hprofile ▸ hremoves⟩
    simp only [beatsApart, hstage, hremoved, Bool.not_true, Bool.false_or, List.all_eq_true]
      at hbeats
    simpa [holdProfile, holdUser, holdToken, huser] using hbeats old hold

/-- A project that is being entered is not deleted. -/
theorem Inv.entered (hw : Inv w) (hf : f ∈ w.flights) (hg : g ∈ w.flights)
    (hnext : next w f = some (s, st)) (henters : enters w.db project g.stage = true)
    (h : (w.db.project project).isSome = true) :
    ((execute w.db s).project project).isSome = true := by
  refine project_execute hw.homes.drawn h ?_
  rintro ids rfl
  obtain ⟨_, hstage, _⟩ := next_wrote hnext
  have hfree := hw.projects g hg f hf project henters
  simp [deletes, hstage] at hfree

/-- Into a project that is being deleted nothing comes. -/
theorem Inv.notEntered (hw : Inv w) (hf : f ∈ w.flights) (hg : g ∈ w.flights)
    (hnext : next w f = some (s, st)) (hdeletes : deletes project g.stage = true)
    {r : Profile} (hr : r ∈ (execute w.db s).profiles) (hin : r.project = project) :
    ∃ old ∈ w.db.profiles, old.id = r.id ∧ old.project = project ∧
      (r.deleted = false → old.deleted = false) := by
  have hwrote := next_wrote hnext
  have hfree : ∀ p, enters w.db p f.stage = true → p ≠ project := by
    rintro p henters rfl
    cases (hw.projects f hf g hg p henters).symm.trans hdeletes
  rcases mem_profiles_execute hr with ⟨org, other, rfl, rfl⟩ |
    ⟨old, hold, hid, _, hproject | ⟨ids, rfl, _⟩, hdeleted⟩
  · exact absurd hin (hfree other (by simp [enters, hwrote.2.1]))
  · refine ⟨old, hold, hid, hproject ▸ hin, fun hlive => ?_⟩
    rcases hdeleted hlive with hbefore | rfl
    · exact hbefore
    · obtain ⟨_, hstage⟩ := hwrote
      have hrow : w.db.profile r.id = some old := hid ▸ lookup_of_mem hw.homes.profiles hold
      exact absurd (hproject ▸ hin) (hfree old.project (by simp [enters, hstage, hrow]))
  · exact absurd hin (hfree r.project (by simp [enters, hwrote.2]))

/-- What was checked still holds after a statement of another request. -/
theorem checked_execute (hw : Inv w) (hf : f ∈ w.flights) (hg : g ∈ w.flights)
    (hnext : next w f = some (s, st)) (hbeats : beatsApart w f = true) :
    Checked (execute w.db s) g.caller g.stage := by
  have hchecked := hw.checked g hg
  have hclosed : ∀ p, removes w.db p g.stage = true → w.db.isOpen p = false →
      (execute w.db s).isOpen p = false := fun p => hw.closed hf hg hnext hbeats
  have hentered : ∀ p, enters w.db p g.stage = true → (w.db.project p).isSome = true →
      ((execute w.db s).project p).isSome = true := fun p => hw.entered hf hg hnext
  -- Of a project that is being deleted: its profiles were in it, and it was there.
  have hrows : ∀ p, deletes p g.stage = true → ∀ r ∈ (execute w.db s).profiles, r.project = p →
      ∃ old, old ∈ w.db.profiles ∧ w.db.profile r.id = some old ∧ old.project = p ∧
        (r.deleted = false → old.deleted = false) := by
    intro p hdeletes r hr hin
    obtain ⟨old, hold, hid, hproject, hdeleted⟩ := hw.notEntered hf hg hnext hdeletes hr hin
    exact ⟨old, hold, hid ▸ lookup_of_mem hw.homes.profiles hold, hproject, hdeleted⟩
  have hthere : ∀ p c, (∀ org, orgOfProject (execute w.db s) p = some org → org = c) →
      ∀ org, orgOfProject w.db p = some org → org = c :=
    fun p c horg org h => horg org (orgOfProject_kept hw.homes.drawn h)
  cases hstage : g.stage with
  | locking p force =>
    rw [hstage] at hchecked
    have htaken : takes p g.stage = true := by simp [takes, hstage]
    obtain ⟨row, hrow⟩ := Option.isSome_iff_exists.mp hchecked
    obtain ⟨hprofile, hlive⟩ := Option.filter_eq_some_iff.mp hrow
    obtain ⟨row', hrow', _, hkeeps⟩ := hw.stays hnext (hw.locks g hg f hf p htaken) hprofile
    refine Option.isSome_iff_exists.mpr ⟨row', Option.filter_eq_some_iff.mpr ⟨hrow', ?_⟩⟩
    simpa using hkeeps (by simpa using hlive)
  | trashing p | purging p =>
    rw [hstage] at hchecked
    exact hclosed p (by simp [removes, hstage]) hchecked
  | projectChecked p =>
    rw [hstage] at hchecked
    intro hinside horg r hr hin
    obtain ⟨old, hold, hrow, hproject, _⟩ := hrows p (by simp [deletes, hstage]) r hr hin
    have hid : old.id = r.id := (lookup_some hrow).2
    exact hclosed r.id (by simp [removes, hstage, hrow, hproject]) (hid ▸ hchecked
      (inOrg_of_execute hinside hw.homes.seats) (hthere p _ horg) old hold hproject)
  | projectMarked p ids =>
    rw [hstage] at hchecked
    intro hinside horg
    obtain ⟨hids, hall⟩ := hchecked (inOrg_of_execute hinside hw.homes.seats) (hthere p _ horg)
    refine ⟨fun id hid => hclosed id (by simp [removes, hstage, hid]) (hids id hid),
      fun r hr hin hlive => ?_⟩
    obtain ⟨old, hold, hrow, hproject, hdeleted⟩ := hrows p (by simp [deletes, hstage]) r hr hin
    have hid : old.id = r.id := (lookup_some hrow).2
    exact hid ▸ hall old hold hproject (hdeleted hlive)
  | moving todo p written =>
    rw [hstage] at hchecked
    refine ⟨hentered p (by simp [enters, hstage]) hchecked.1, fun id hid => ?_⟩
    exact hclosed id (by simp [removes, hstage, hid]) (hchecked.2 id hid)
  | moveChecked q todo p written =>
    rw [hstage] at hchecked
    refine ⟨hentered p (by simp [enters, hstage]) hchecked.1, fun id hid => ?_⟩
    have hin : q = id ∨ id ∈ written := by simpa [eq_comm] using hid
    exact hclosed id (by simpa [removes, hstage] using hin) (hchecked.2 id hid)
  | creatingProfile p =>
    rw [hstage] at hchecked
    exact hentered p (by simp [enters, hstage]) hchecked
  | restoring p =>
    rw [hstage] at hchecked
    intro r hr
    obtain ⟨hmem, hid⟩ := lookup_some hr
    have hwrote := next_wrote hnext
    have hrunner := hw.checked f hf
    rcases mem_profiles_execute hmem with ⟨org, other, rfl, rfl⟩ |
      ⟨old, hold, holdId, _, hproject | ⟨ids, rfl, _⟩, _⟩
    · rw [hwrote.2.1] at hrunner
      exact hrunner
    · have hrow : w.db.profile p = some old :=
        hid ▸ holdId ▸ lookup_of_mem hw.homes.profiles hold
      rw [hproject]
      exact hentered old.project (by simp [enters, hstage, hrow]) (hchecked old hrow)
    · rw [hwrote.2] at hrunner
      exact hrunner.1
  | _ => trivial

end Statements

section Checks

variable {w : World} {f : Flight} {s : Statement} {stage : Stage}

/-- The stages between a check and its write. -/
def watched : Stage → Bool
  | .locking .. | .trashing .. | .purging .. | .projectChecked .. | .projectMarked .. | .moving ..
  | .moveChecked .. | .creatingProfile .. | .restoring .. => true
  | _ => false

/-- Nothing is written on the way into such a stage. -/
theorem next_nothing (hnext : next w f = some (s, some stage)) (hstage : watched stage = true) :
    s = .nothing := by
  unfold next at hnext
  cases hf : f.stage with
  | begun req | relinking user =>
    simp only [hf, Option.some.injEq, Prod.mk.injEq] at hnext
    exact hnext.1.symm
  | moving todo project written =>
    cases todo with
    | nil => simp [hf] at hnext
    | cons profile todo =>
      simp only [hf, Option.some.injEq, Prod.mk.injEq] at hnext
      exact hnext.1.symm
  | moveChecked profile todo project written | projectChecked project =>
    simp only [hf, Option.ite_none_left_eq_some, Option.some.injEq, Prod.mk.injEq] at hnext
    exact hnext.2.1.symm
  | rotating req todo pending =>
    cases todo with
    | nil => simp [hf] at hnext
    | cons phase todo =>
      simp only [hf, Option.ite_none_left_eq_some, Option.some.injEq, Prod.mk.injEq] at hnext
      exact hnext.2.1.symm
  | relinked writes =>
    cases writes with
    | nil => simp [hf] at hnext
    | cons write writes =>
      simp only [hf, Option.ite_none_left_eq_some, Option.some.injEq, Prod.mk.injEq] at hnext
      obtain ⟨_, _, rfl⟩ := hnext
      cases hstage
  | arrived token req | revoking project user | unsharing profile user | settingRole user role =>
    simp only [hf, Option.ite_none_left_eq_some, Option.some.injEq, Prod.mk.injEq] at hnext
    obtain ⟨_, _, rfl⟩ := hnext
    cases hstage
  | savingRole id permissions | deletingList id =>
    simp only [hf] at hnext
    split at hnext
    · cases hnext
      cases hstage
    · cases hnext
  | deletingRole id | savingList id kind domains =>
    simp only [hf] at hnext
    split at hnext <;> cases hnext
  | _ => simp [hf] at hnext

/-- Whoever may launch a profile finds it live. -/
theorem live_of_launch {db : Db} {user profile : ℕ} {p : Perm}
    (h : (db.permissionsForProfile user profile).has p = true) :
    (db.liveProfile profile).isSome = true := by
  unfold Db.permissionsForProfile at h
  split at h
  · simp at h
  · rename_i row hrow
    simp [hrow]

theorem checked_next (hw : Inv w) (hf : f ∈ w.flights) (hnext : next w f = some (s, some stage))
    (hapart : apart w stage = true) : Checked w.db f.caller stage := by
  have hbecame := next_became hnext
  have hchecked := hw.checked f hf
  cases stage with
  | locking profile force =>
    obtain ⟨_, hlock⟩ := hbecame
    simp only [acquireLock, Bool.and_eq_true] at hlock
    exact live_of_launch hlock.1
  | trashing profile => exact hbecame.2.2
  | purging profile =>
    simp only [apart, Bool.and_eq_true, Bool.not_eq_true'] at hapart
    exact hapart.2
  | projectChecked project =>
    obtain ⟨_, hclosed⟩ := hbecame
    intro hinside horg r hr hin
    have hrow : w.db.profile r.id = some r := lookup_of_mem hw.homes.profiles hr
    have hsees : w.db.sees f.caller.user r.id = true := by
      simp [Db.sees, hrow, horg r.org (hin ▸ hw.homes.homed r hr), hinside]
    by_contra hopen
    have hany : projectOpen w.db f.caller project = true :=
      List.any_eq_true.mpr ⟨r, hr, by simpa [hin, hsees] using hopen⟩
    cases hclosed.symm.trans hany
  | projectMarked project ids =>
    obtain ⟨hstage, rfl⟩ := hbecame
    rw [hstage] at hchecked
    intro hinside horg
    have hall := hchecked hinside horg
    refine ⟨fun id hid => ?_, fun r hr hin hlive => ?_⟩
    · obtain ⟨r, hr, rfl⟩ := List.mem_map.mp hid
      obtain ⟨hmem, hmarked⟩ := List.mem_filter.mp hr
      simp only [Bool.and_eq_true, decide_eq_true_eq] at hmarked
      exact hall r hmem hmarked.1.1
    · have hrow : w.db.profile r.id = some r := lookup_of_mem hw.homes.profiles hr
      have hsees : w.db.sees f.caller.user r.id = true := by
        simp [Db.sees, hrow, horg r.org (hin ▸ hw.homes.homed r hr), hinside]
      exact List.mem_map.mpr ⟨r, List.mem_filter.mpr ⟨hr, by simp [hin, hlive, hsees]⟩, rfl⟩
  | moving todo project written =>
    rcases hbecame with ⟨_, rfl, hperm⟩ | ⟨profile, hstage⟩ | ⟨profile, before, hstage, rfl⟩
    · obtain ⟨⟨pr, hpr⟩, _⟩ := hw.homes.project_of_permission hf hperm
      exact ⟨by simp [hpr], nofun⟩
    · rw [hstage] at hchecked
      exact hchecked
    · rw [hstage] at hchecked
      exact hchecked
  | moveChecked profile todo project written =>
    obtain ⟨hstage, _, hclosed⟩ := hbecame
    rw [hstage] at hchecked
    refine ⟨hchecked.1, fun id hid => ?_⟩
    rcases List.mem_cons.mp hid with rfl | hin
    · exact hclosed
    · exact hchecked.2 id hin
  | creatingProfile project =>
    obtain ⟨⟨pr, hpr⟩, _⟩ := hw.homes.project_of_permission hf hbecame.2
    simp [Checked, hpr]
  | restoring profile =>
    obtain ⟨_, hmay⟩ := hbecame
    intro r hr
    simp only [mayDelete, hr, Option.any_some] at hmay
    obtain ⟨⟨pr, hpr⟩, _⟩ := hw.homes.project_of_permission hf hmay
    simp [hpr]
  | _ => trivial

end Checks

section Overlaps

variable {w : World} {f g g' : Flight} {s : Statement} {st : Option Stage} {stage : Stage}
  {profile project : ℕ}

/-- Whoever deletes a project takes its profiles away. -/
theorem removes_of_deletes {db : Db} {r : Profile} (h : deletes r.project stage = true)
    (hr : db.profile profile = some r) : removes db profile stage = true := by
  cases stage with
  | projectChecked p => simpa [removes, deletes, hr, eq_comm] using h
  | projectMarked p ids =>
    have hin : r.project = p := by simpa [deletes, eq_comm] using h
    simp [removes, hr, hin]
  | _ => cases h

theorem removes_cases {db db' : Db} (h : removes db' profile stage = true) :
    removes db profile stage = true ∨
      ∃ r, db'.profile profile = some r ∧ deletes r.project stage = true := by
  cases stage with
  | projectChecked p =>
    obtain ⟨r, hr, hin⟩ := (Option.any_eq_true _ _).mp h
    exact .inr ⟨r, hr, by simpa [deletes, eq_comm] using hin⟩
  | projectMarked p ids =>
    rcases Bool.or_eq_true_iff.mp h with hmarked | hany
    · exact .inl (Bool.or_eq_true_iff.mpr (.inl hmarked))
    · obtain ⟨r, hr, hin⟩ := (Option.any_eq_true _ _).mp hany
      exact .inr ⟨r, hr, by simpa [deletes, eq_comm] using hin⟩
  | _ => exact .inl h

theorem enters_cases {db db' : Db} (h : enters db' project stage = true) :
    enters db project stage = true ∨
      ∃ q r, stage = .restoring q ∧ db'.profile q = some r ∧ r.project = project := by
  cases stage with
  | restoring q =>
    obtain ⟨r, hr, hin⟩ := (Option.any_eq_true _ _).mp h
    exact .inr ⟨q, r, rfl, hr, by simpa using hin⟩
  | _ => exact .inl h

/-- A statement does not bring a lock request and a removal together. -/
theorem Inv.locks_kept (hw : Inv w) (hf : f ∈ w.flights) (hg : g ∈ w.flights)
    (hg' : g' ∈ w.flights) (hnext : next w f = some (s, st))
    (htakes : takes profile g.stage = true) :
    removes (execute w.db s) profile g'.stage = false := by
  by_contra hremoves
  have hfree := hw.locks g hg g' hg' profile htakes
  rcases removes_cases (by simpa using hremoves) with hbefore | ⟨r, hr, hdeletes⟩
  · cases hfree.symm.trans hbefore
  · obtain ⟨hmem, hid⟩ := lookup_some hr
    obtain ⟨old, hold, holdId, hproject, _⟩ := hw.notEntered hf hg' hnext hdeletes hmem rfl
    have hrow : w.db.profile profile = some old :=
      hid ▸ holdId ▸ lookup_of_mem hw.homes.profiles hold
    cases hfree.symm.trans (removes_of_deletes (hproject ▸ hdeletes) hrow)

/-- Nor somebody who enters a project and somebody who deletes it. -/
theorem Inv.projects_kept (hw : Inv w) (hf : f ∈ w.flights) (hg : g ∈ w.flights)
    (hg' : g' ∈ w.flights) (hnext : next w f = some (s, st))
    (henters : enters (execute w.db s) project g.stage = true) :
    deletes project g'.stage = false := by
  by_contra hdeletes
  have hdeletes : deletes project g'.stage = true := by simpa using hdeletes
  have hbefore : enters w.db project g.stage = true := by
    rcases enters_cases henters with hbefore | ⟨q, r, hstage, hr, hin⟩
    · exact hbefore
    · obtain ⟨hmem, hid⟩ := lookup_some hr
      obtain ⟨old, hold, holdId, hproject, _⟩ := hw.notEntered hf hg' hnext hdeletes hmem hin
      have hrow : w.db.profile q = some old :=
        hid ▸ holdId ▸ lookup_of_mem hw.homes.profiles hold
      simp [hstage, enters, hrow, hproject]
  cases (hw.projects g hg g' hg' project hbefore).symm.trans hdeletes

theorem removes_congr {db db' : Db} (h : ∀ p, db'.profile p = db.profile p) :
    removes db' profile stage = removes db profile stage := by
  cases stage <;> simp only [removes, h]

theorem enters_congr {db db' : Db} (h : ∀ p, db'.profile p = db.profile p) :
    enters db' project stage = enters db project stage := by
  cases stage <;> simp only [enters, h]

theorem not_beingRemoved (h : beingRemoved w profile = false) (hg : g ∈ w.flights) :
    removes w.db profile g.stage = false := by
  simpa using List.any_eq_false.mp h g hg

theorem not_beingTaken (h : beingTaken w profile = false) (hg : g ∈ w.flights) :
    takes profile g.stage = false := by
  simpa using List.any_eq_false.mp h g hg

theorem not_beingDeleted (h : beingDeleted w project = false) (hg : g ∈ w.flights) :
    deletes project g.stage = false := by
  simpa using List.any_eq_false.mp h g hg

/-- A lock request that has just been checked meets no removal, -/
theorem takes_apart (hg : g ∈ w.flights) (hapart : apart w stage = true)
    (htakes : takes profile stage = true) : removes w.db profile g.stage = false := by
  cases stage with
  | locking p force =>
    have hp : p = profile := by simpa [takes] using htakes
    subst hp
    exact not_beingRemoved (by simpa [apart] using hapart) hg
  | _ => cases htakes

/-- and a removal that has just been checked meets no lock request. -/
theorem removes_apart (hw : Inv w) (hf : f ∈ w.flights) (hg : g ∈ w.flights)
    (hnext : next w f = some (s, some stage)) (hapart : apart w stage = true)
    (htakes : takes profile g.stage = true) : removes w.db profile stage = false := by
  have hbecame := next_became hnext
  have hbefore := hw.locks g hg f hf profile htakes
  have hfree : ∀ p, beingTaken w p = false → p ≠ profile := by
    rintro p hp rfl
    cases (not_beingTaken hp hg).symm.trans htakes
  cases stage with
  | trashing p => exact decide_eq_false (hfree p (by simpa [apart] using hapart))
  | purging p =>
    simp only [apart, Bool.and_eq_true, Bool.not_eq_true'] at hapart
    exact decide_eq_false (hfree p hapart.1)
  | projectChecked p =>
    by_contra hremoves
    obtain ⟨r, hr, hin⟩ := (Option.any_eq_true _ _).mp (Bool.eq_true_of_not_eq_false hremoves)
    obtain ⟨hmem, hid⟩ := lookup_some hr
    simp only [apart, Bool.and_eq_true, List.all_eq_true] at hapart
    have hnot : beingTaken w r.id = false := by simpa [hin] using hapart.2 r hmem
    exact hfree r.id hnot hid
  | projectMarked p ids =>
    obtain ⟨hstage, rfl⟩ := hbecame
    rw [hstage] at hbefore
    by_contra hremoves
    rcases Bool.or_eq_true_iff.mp (Bool.eq_true_of_not_eq_false hremoves) with hmarked | hany
    · obtain ⟨r, hr, hid⟩ := List.mem_map.mp (of_decide_eq_true hmarked)
      obtain ⟨hmem, hin⟩ := List.mem_filter.mp hr
      simp only [Bool.and_eq_true, decide_eq_true_eq] at hin
      have hrow : w.db.profile profile = some r := hid ▸ lookup_of_mem hw.homes.profiles hmem
      simp [removes, hrow, hin.1.1] at hbefore
    · cases hbefore.symm.trans hany
  | moving todo p written =>
    rcases hbecame with ⟨_, rfl, _⟩ | ⟨q, hstage⟩ | ⟨q, before, hstage, rfl⟩
    · rfl
    · rwa [hstage] at hbefore
    · rw [hstage] at hbefore
      simp only [removes, Bool.or_eq_false_iff, decide_eq_false_iff_not] at hbefore
      refine decide_eq_false fun hin => ?_
      rcases List.mem_cons.mp hin with rfl | hin
      · exact hbefore.1 rfl
      · exact hbefore.2 hin
  | moveChecked q todo p written =>
    simp only [apart, Bool.and_eq_true, Bool.not_eq_true'] at hapart
    obtain ⟨hstage, _⟩ := hbecame
    rw [hstage] at hbefore
    have hne := hfree q hapart.1
    simpa [removes, hne] using hbefore
  | _ => rfl

/-- Whoever is about to enter a project meets nobody who deletes it, -/
theorem enters_apart (hg : g ∈ w.flights) (hapart : apart w stage = true)
    (henters : enters w.db project stage = true) : deletes project g.stage = false := by
  cases stage with
  | creatingProfile p | moving todo p written =>
    have hp : p = project := by simpa [enters] using henters
    subst hp
    exact not_beingDeleted (by simpa [apart] using hapart) hg
  | moveChecked q todo p written =>
    have hp : p = project := by simpa [enters] using henters
    subst hp
    simp only [apart, Bool.and_eq_true, Bool.not_eq_true'] at hapart
    exact not_beingDeleted hapart.2 hg
  | restoring q =>
    obtain ⟨r, hr, hin⟩ := (Option.any_eq_true _ _).mp henters
    have hp : r.project = project := by simpa using hin
    subst hp
    exact not_beingDeleted (by simpa [apart, hr] using hapart) hg
  | _ => cases henters

/-- and whoever is about to delete it nobody who enters. -/
theorem deletes_apart (hw : Inv w) (hf : f ∈ w.flights) (hg : g ∈ w.flights)
    (hnext : next w f = some (s, some stage)) (hapart : apart w stage = true)
    (henters : enters w.db project g.stage = true) : deletes project stage = false := by
  cases stage with
  | projectChecked p =>
    simp only [apart, Bool.and_eq_true, Bool.not_eq_true'] at hapart
    refine decide_eq_false fun heq => ?_
    subst heq
    exact absurd henters (by simpa using List.any_eq_false.mp hapart.1 g hg)
  | projectMarked p ids =>
    obtain ⟨hstage, _⟩ := next_became hnext
    have hbefore := hw.projects g hg f hf project henters
    rwa [hstage] at hbefore
  | _ => rfl

end Overlaps

section Steps

variable {w w' : World} {f : Flight} {s : Statement} {st : Option Stage}

/-- Profiles that are not in the trash are in projects that are not deleted. -/
theorem live_execute (hw : Inv w) (hf : f ∈ w.flights) (hnext : next w f = some (s, st)) :
    ∀ r ∈ (execute w.db s).profiles, r.deleted = false →
      ((execute w.db s).project r.project).isSome = true := by
  intro r hr hlive
  have hwrote := next_wrote hnext
  have hrunner := hw.checked f hf
  rcases mem_profiles_execute hr with ⟨org, project, rfl, rfl⟩ |
    ⟨old, hold, hid, _, hproject | ⟨ids, rfl, _⟩, hdeleted⟩
  · rw [hwrote.2.1] at hrunner
    exact hrunner
  · rcases hdeleted hlive with hbefore | rfl
    · rw [hproject]
      refine project_execute hw.homes.drawn (hw.live old hold hbefore) ?_
      rintro ids rfl
      -- Its project is deleted, and so it is marked.
      obtain ⟨_, hstage, horg, hinside⟩ := hwrote
      rw [hstage] at hrunner
      obtain ⟨_, hall⟩ := hrunner hinside fun org h => Option.some.inj (h.symm.trans horg)
      have hmarked := hall old hold rfl hbefore
      rcases updateWhere_cases hr with ⟨_, hnot⟩ | ⟨_, _, _, rfl⟩
      · simp [← hid, hmarked] at hnot
      · cases hlive
    · obtain ⟨_, hstage⟩ := hwrote
      rw [hstage] at hrunner
      rw [hproject]
      exact hrunner old (hid ▸ lookup_of_mem hw.homes.profiles hold)
  · rw [hwrote.2] at hrunner
    exact hrunner.1

theorem inv_runs {id : ℕ} (hw : Inv w) (hapart : Apart w (.runs id)) (hs : runs w id = some w') :
    Inv w' := by
  have hh : Homes w' := homes_step hw.homes trivial (show step w (.runs id) = some w' from hs)
  obtain ⟨f, hf, hid, s, st, hnext, rfl⟩ := runs_some hs
  have hn := hw.homes.numbered
  have hguard := hapart f (hid ▸ lookup_of_mem hn.ids hf)
  simp only [hnext, Option.all_some, Bool.and_eq_true] at hguard
  obtain ⟨hbeats, hst⟩ := hguard
  have hmoved : ∀ stage, st = some stage → watched stage = true → apart w stage = true ∧
      execute w.db s = w.db := by
    rintro stage rfl hwatched
    exact ⟨by simpa using hst, by rw [next_nothing hnext hwatched]; rfl⟩
  refine ⟨hh, live_execute hw hf hnext, fun g hg => ?_, fun g hg g' hg' profile htakes => ?_,
    fun g hg g' hg' project henters => ?_⟩
  · rcases mem_goOn hn hf hid hg with ⟨hin, _⟩ | ⟨stage, rfl, rfl⟩
    · exact checked_execute hw hf hin hnext hbeats
    · cases hwatched : watched stage with
      | true =>
        obtain ⟨hstage, hsame⟩ := hmoved stage rfl hwatched
        change Checked (execute w.db s) f.caller stage
        rw [hsame]
        exact checked_next hw hf hnext hstage
      | false => cases stage <;> trivial
  · rcases mem_goOn hn hf hid hg with ⟨hin, _⟩ | ⟨stage, rfl, rfl⟩
    · rcases mem_goOn hn hf hid hg' with ⟨hin', _⟩ | ⟨stage', rfl, rfl⟩
      · exact hw.locks_kept hf hin hin' hnext htakes
      · cases hwatched : watched stage' with
        | true =>
          obtain ⟨hstage, hsame⟩ := hmoved stage' rfl hwatched
          change removes (execute w.db s) profile stage' = false
          rw [hsame]
          exact removes_apart hw hf hin hnext hstage htakes
        | false => cases stage' <;> first | rfl | cases hwatched
    · have hwatched : watched stage = true := by
        cases stage <;> first | rfl | cases htakes
      obtain ⟨hstage, hsame⟩ := hmoved stage rfl hwatched
      have hmem : g' ∈ w.goOn id (some stage) := hg'
      rcases mem_goOn hn hf hid hmem with ⟨hin', _⟩ | ⟨stage', heq, rfl⟩
      · change removes (execute w.db s) profile g'.stage = false
        rw [hsame]
        exact takes_apart hin' hstage htakes
      · cases heq
        cases stage <;> first | rfl | cases htakes
  · rcases mem_goOn hn hf hid hg with ⟨hin, _⟩ | ⟨stage, rfl, rfl⟩
    · rcases mem_goOn hn hf hid hg' with ⟨hin', _⟩ | ⟨stage', rfl, rfl⟩
      · exact hw.projects_kept hf hin hin' hnext henters
      · cases hwatched : watched stage' with
        | true =>
          obtain ⟨hstage, hsame⟩ := hmoved stage' rfl hwatched
          have hbefore : enters w.db project g.stage = true := by
            rw [← hsame]
            exact henters
          exact deletes_apart hw hf hin hnext hstage hbefore
        | false => cases stage' <;> first | rfl | cases hwatched
    · have hwatched : watched stage = true := by
        cases stage <;> first | rfl | cases henters
      obtain ⟨hstage, hsame⟩ := hmoved stage rfl hwatched
      have hmem : g' ∈ w.goOn id (some stage) := hg'
      have hbefore : enters w.db project stage = true := by
        rw [← hsame]
        exact henters
      rcases mem_goOn hn hf hid hmem with ⟨hin', _⟩ | ⟨stage', heq, rfl⟩
      · exact enters_apart hin' hstage hbefore
      · cases heq
        cases stage <;> first | rfl | cases henters

/-- Steps that leave projects, profiles and locks alone. -/
theorem Inv.same (hw : Inv w) {a : Label} (hs : step w a = some w')
    (hprofiles : w'.db.profiles = w.db.profiles) (hprojects : w'.db.projects = w.db.projects)
    (hlocks : w'.db.locks = w.db.locks) (hnow : w.db.now ≤ w'.db.now)
    (hin : ∀ f ∈ w.flights, w'.db.inOrg f.caller.user f.caller.org = true →
      w.db.inOrg f.caller.user f.caller.org = true)
    (hflights : ∀ f ∈ w'.flights, f ∈ w.flights ∨ watched f.stage = false) : Inv w' := by
  have hproject : ∀ p, w'.db.project p = w.db.project p := by
    intro p
    rw [Db.project, hprojects, Db.project]
  have hprofile : ∀ p, w'.db.profile p = w.db.profile p := by
    intro p
    rw [Db.profile, hprofiles, Db.profile]
  refine ⟨homes_step hw.homes trivial hs, fun r hr hlive => ?_, fun f hf => ?_,
    fun f hf g hg profile htakes => ?_, fun f hf g hg project henters => ?_⟩
  · exact (hproject r.project).symm ▸ hw.live r (hprofiles ▸ hr) hlive
  · rcases hflights f hf with hin' | hnot
    · exact (hw.checked f hin').mono hprofiles hprojects hlocks hnow (hin f hin')
    · cases hstage : f.stage <;> first | trivial | (rw [hstage] at hnot; cases hnot)
  · rcases hflights f hf with hinf | hnot
    · rcases hflights g hg with hing | hnot
      · exact (removes_congr hprofile).trans (hw.locks f hinf g hing profile htakes)
      · cases hstage : g.stage <;> first | rfl | (rw [hstage] at hnot; cases hnot)
    · cases hstage : f.stage <;> rw [hstage] at hnot htakes <;> first | cases htakes | cases hnot
  · rcases hflights g hg with hing | hnot
    · rcases hflights f hf with hinf | hnot
      · exact hw.projects f hinf g hing project ((enters_congr hprofile).symm.trans henters)
      · cases hstage : f.stage <;> rw [hstage] at hnot henters <;>
          first | cases henters | cases hnot
    · cases hstage : g.stage <;> first | rfl | (rw [hstage] at hnot; cases hnot)

theorem Inv.join (hw : Inv w) {a : Label} {org : ℕ} {role : Role} {orgs : List Org} {n : ℕ}
    (hs : step w a = some { w with
      db := TeamRuns.join { w.db with orgs := orgs, fresh := n } org role }) :
    Inv { w with db := TeamRuns.join { w.db with orgs := orgs, fresh := n } org role } := by
  refine hw.same hs rfl rfl rfl Nat.le.refl (fun f hf hin => ?_) fun f hf => .inl hf
  obtain ⟨m, hm⟩ := Option.isSome_iff_exists.mp hin
  obtain ⟨hlookup, horg⟩ := Option.filter_eq_some_iff.mp hm
  have hne : w.db.users ≠ f.caller.user := Nat.ne_of_gt (hw.homes.callers f hf).1
  have hfound : lookup Member.user w.db.members f.caller.user = some m :=
    (List.find?_cons_of_neg (by simpa using hne)).symm.trans hlookup
  exact Option.isSome_iff_exists.mpr ⟨m, Option.filter_eq_some_iff.mpr ⟨hfound, horg⟩⟩

theorem inv_step : Preserved step Apart Inv := by
  intro w a w' hw hapart hs
  cases a with
  | found role =>
    have hstep := hs
    cases hs
    exact hw.join hstep
  | enroll org role =>
    have hstep := hs
    simp only [step, Option.ite_none_left_eq_some, Option.some.injEq] at hs
    obtain ⟨_, rfl⟩ := hs
    exact hw.join hstep
  | signIn user =>
    have hstep := hs
    simp only [step, Option.ite_none_right_eq_some, Option.some.injEq] at hs
    obtain ⟨_, rfl⟩ := hs
    exact hw.same hstep rfl rfl rfl Nat.le.refl (fun f hf hin => hin) fun f hf => .inl hf
  | signOut token =>
    have hstep := hs
    cases hs
    exact hw.same hstep rfl rfl rfl Nat.le.refl (fun f hf hin => hin) fun f hf => .inl hf
  | arrives token req =>
    have hstep := hs
    obtain ⟨c, _, rfl⟩ := Option.map_eq_some_iff.mp hs
    refine hw.same hstep rfl rfl rfl Nat.le.refl (fun f hf hin => hin) fun f hf => ?_
    rcases List.mem_cons.mp hf with rfl | hin
    · exact .inr rfl
    · exact .inl hin
  | runs id => exact inv_runs hw hapart hs
  | lost id =>
    have hstep := hs
    cases hs
    exact hw.same hstep rfl rfl rfl Nat.le.refl (fun f hf hin => hin)
      fun f hf => .inl (mem_deleteWhere.mp hf).1
  | tick seconds =>
    have hstep := hs
    cases hs
    exact hw.same hstep rfl rfl rfl (Nat.le_add_right _ _) (fun f hf hin => hin) fun f hf => .inl hf

theorem Inv.purges (hw : Inv w) : ∀ f ∈ w.flights, ∀ profile, f.stage = .purging profile →
    w.db.isOpen profile = false := by
  intro f hf profile hstage
  have hchecked := hw.checked f hf
  rw [hstage] at hchecked
  exact hchecked

/-- A statement of a request takes no open profile away, and grants no lock on one that
is gone. -/
theorem kept_runs {id : ℕ} (hw : Inv w) (hs : runs w id = some w') : Kept w w' := by
  obtain ⟨f, hf, hid, s, st, hnext, rfl⟩ := runs_some hs
  have hwrote := next_wrote hnext
  have hchecked := hw.checked f hf
  refine ⟨fun profile row hrow hopen => ?_, fun l hl hnew => ?_, hw.purges⟩
  · refine profile_stays hw.homes.drawn hrow ?_ ?_ ?_ ?_
    · rintro rfl
      rw [hwrote.2.1] at hchecked
      cases hopen.symm.trans hchecked
    · rintro other ids rfl hin
      obtain ⟨_, hstage, horg, hinside⟩ := hwrote
      rw [hstage] at hchecked
      obtain ⟨hids, _⟩ := hchecked hinside fun org h => Option.some.inj (h.symm.trans horg)
      cases hopen.symm.trans (hids profile hin)
    · rintro ids other rfl hin
      rw [hwrote.2] at hchecked
      cases hopen.symm.trans (hchecked.2 profile hin)
    · rintro rfl
      rw [hwrote.2.1] at hchecked
      cases hopen.symm.trans hchecked
  · rcases mem_locks_execute hl with ⟨rfl, _⟩ | ⟨old, hold, _, _, htoken⟩
    · obtain ⟨_, _, _, force, hstage, _⟩ := hwrote
      rw [hstage] at hchecked
      obtain ⟨row, hrow⟩ := Option.isSome_iff_exists.mp hchecked
      obtain ⟨hprofile, hlive⟩ := Option.filter_eq_some_iff.mp hrow
      exact ⟨row, hrow, hw.live row (lookup_some hprofile).1 (by simpa using hlive)⟩
    · exact absurd htoken (hnew old hold)

end Steps

/-- As long as requests that race each other do not overlap, an open profile is never
taken away, and no lock is granted on one that is gone. -/
theorem open_profiles_stay {w w' : World} {a : Label} (hr : Reached init step Apart w)
    (hs : step w a = some w') : Kept w w' := by
  have hempty : Inv empty := ⟨homes_empty, List.forall_mem_nil _, List.forall_mem_nil _,
    List.forall_mem_nil _, List.forall_mem_nil _⟩
  have hw : Inv w := hr.invariant Inv (fun _ hi => hi ▸ hempty) inv_step
  have hsame : ∀ db, w'.db = db → db.profiles = w.db.profiles → db.locks = w.db.locks →
      Kept w w' := by
    rintro db rfl hprofiles hlocks
    refine ⟨fun profile row hrow _ => ⟨row, ?_, rfl, id⟩, fun l hl hnew => ?_, hw.purges⟩
    · rw [Db.profile, hprofiles]
      exact hrow
    · exact absurd rfl (hnew l (hlocks ▸ hl))
  cases a with
  | runs id => exact kept_runs hw hs
  | found role | signOut token | lost id | tick seconds =>
    cases hs
    exact hsame _ rfl rfl rfl
  | enroll org role =>
    simp only [step, Option.ite_none_left_eq_some, Option.some.injEq] at hs
    obtain ⟨_, rfl⟩ := hs
    exact hsame _ rfl rfl rfl
  | signIn user =>
    simp only [step, Option.ite_none_right_eq_some, Option.some.injEq] at hs
    obtain ⟨_, rfl⟩ := hs
    exact hsame _ rfl rfl rfl
  | arrives token req =>
    obtain ⟨c, _, rfl⟩ := Option.map_eq_some_iff.mp hs
    exact hsame _ rfl rfl rfl

/-- The plain member may launch the profile. -/
def granted : List Label := team ++ whole 2 1 (.grantAccess 4 2 [.view, .launch] none none none) 3

/-- They open it, and then the owner asks for its deletion, which is about to be
checked. -/
def deletesOpen : List Label :=
  granted ++ whole 3 3 (.acquireLock 5 false) 3 ++ whole 4 1 (.deleteProfile 5) 1

theorem open_profiles_stay_deletes : (after deletesOpen).db.isOpen 5 = true ∧
    Kept (after deletesOpen) (after (deletesOpen ++ [.runs 4])) := by
  have hempty : Reached init step Apart empty := .start rfl
  have hreached : Reached init step Apart (after deletesOpen) :=
    hempty.run deletesOpen (by decide) (by decide)
  have hs : step (after deletesOpen) (.runs 4) = some (after (deletesOpen ++ [.runs 4])) := by
    decide
  exact ⟨by decide, open_profiles_stay hreached hs⟩

/-- The owner asks for its deletion, which is checked while the profile is closed, and
then the member opens it. -/
def opensDeleted : List Label :=
  granted ++ whole 3 1 (.deleteProfile 5) 2 ++ whole 4 3 (.acquireLock 5 false) 3

/-- It goes to the trash while it is open. -/
theorem open_profile_deleted : ¬ ∀ w w' a, Reached init step anyStep w →
    step w a = some w' → Kept w w' := by
  intro h
  have hempty : Reached init step anyStep empty := .start rfl
  have hreached : Reached init step anyStep (after opensDeleted) :=
    hempty.run_any opensDeleted (by decide)
  have hs : step (after opensDeleted) (.runs 3) = some (after (opensDeleted ++ [.runs 3])) := by
    decide
  obtain ⟨row, hrow, _, hkept⟩ := (h _ _ _ hreached hs).stays 5 ⟨5, 0, 4, false⟩
    (by decide) (by decide)
  have htrashed : (after (opensDeleted ++ [.runs 3])).db.profile 5 = some ⟨5, 0, 4, true⟩ := by
    decide
  cases Option.some.inj (hrow.symm.trans htrashed)
  cases hkept rfl

end FuryBrowser.OpenProfiles
