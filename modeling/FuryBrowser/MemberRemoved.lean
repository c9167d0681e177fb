import FuryBrowser.TeamSteps

/-!
# What a removed member leaves behind

A rotation that removes a member deletes their seat, their grants, their sessions
and their locks, one statement after another, and commits them together. A row that
is written for them after its statement has run stays, and so does a share, which
no statement deletes: the rotation seals it again under the new key. What a
connection may delete, it may delete as a member, so a rotation of somebody who was
removed themselves in the meantime deletes little.

Nothing is left when none of this happens.
-/

namespace FuryBrowser.MemberRemoved

open GuardedRuns RowTable Permissions TeamTables TeamRequests TeamRuns TeamSteps
open OrgKeys (Role)
open ProfileLocks (Lock)

/-- Somebody has nothing in an organisation, and is signed in nowhere. -/
structure Gone (db : Db) (user org : ℕ) : Prop where
  /-- No seat, and so no organisation key sealed for them. -/
  members : ∀ m ∈ db.members, m.user = user → m.org ≠ org
  projectGrants : ∀ g ∈ db.projectGrants, g.user = user → orgOfProject db g.project ≠ some org
  /-- No share, and so no profile key sealed for them. -/
  profileGrants : ∀ g ∈ db.profileGrants, g.user = user →
    ∀ p, db.profile g.profile = some p → p.org ≠ org
  sessions : ∀ s ∈ db.sessions, s.user ≠ user
  locks : ∀ l ∈ db.locks, l.user = user → ∀ p, db.profile l.profile = some p → p.org ≠ org

/-- A rotation in flight that removes somebody is past one of its statements. -/
def past (w : World) (phase : Phase) (user org : ℕ) : Bool :=
  w.rotationAny fun c req todo _ => c.org = org && req.remove = some user && phase ∉ todo

/-- It has deleted their sessions. -/
def signedOut (w : World) (user : ℕ) : Bool :=
  w.rotationAny fun _ req todo _ => req.remove = some user && .dropsSessions ∉ todo

/-- A rotation that removes somebody starts inside its organisation. -/
def startsInside (w : World) (f : Flight) : Bool :=
  match f.stage with
  | .rotating req (.takesOrg :: _) _ => req.remove = none || w.db.inOrg f.caller.user f.caller.org
  | _ => true

/-- A statement writes nothing for somebody who is being removed, and a rotation does
not commit while whoever it removes has a share in the organisation. -/
def leavesNothing (w : World) : Statement → Bool
  | .putProjectGrant g =>
    (orgOfProject w.db g.project).all fun org => !past w .dropsGrants g.user org
  | .putLock profile user =>
    (w.db.profile profile).all fun p => !past w .dropsLocks user p.org
  | .rotate org remove _ _ => w.db.profileGrants.all fun g =>
    remove ≠ some g.user || (w.db.profile g.profile).all fun p => p.org ≠ org
  | _ => true

/-- Whoever is being removed gets nothing new behind the rotation's back. -/
def Undisturbed (w : World) : Label → Prop
  | .signIn user => signedOut w user = false
  | .runs id => ∀ f ∈ lookup Flight.id w.flights id,
      (startsInside w f && (next w f).all fun r => leavesNothing w r.1) = true
  | _ => True

instance : DecidableRel Undisturbed := fun w a => by
  rcases a with _ | _ <;> dsimp only [Undisturbed] <;> infer_instance

/-- What a rotation in flight can rely on. -/
structure Rotation (db : Db) (c : Caller) (req : RotateRequest) (todo : List Phase)
    (pending : Pending) (user : ℕ) : Prop where
  /-- Its statements run in order. -/
  order : todo <:+ phases
  /-- Its caller is in the organisation. -/
  inside : .takesOrg ∉ todo → db.inOrg c.user c.org = true
  known : .takesOrg ∉ todo → user < db.users
  /-- It deletes every grant of theirs, -/
  grants : .dropsGrants ∉ todo → ∀ g ∈ db.projectGrants, g.user = user →
    orgOfProject db g.project = some c.org → g.key ∈ pending.grants
  sessions : .dropsSessions ∉ todo → ∀ s ∈ db.sessions, s.user = user → s.token ∈ pending.sessions
  locks : .dropsLocks ∉ todo → ∀ l ∈ db.locks, l.user = user →
    ∀ p, db.profile l.profile = some p → p.org = c.org → l.profile ∈ pending.locks

/-- What every undisturbed run keeps. -/
structure Inv (w : World) : Prop where
  /-- Requests have ids of their own. -/
  numbered : Numbered w
  drawn : Drawn w.db
  members : MembersAreUsers w
  /-- Rotations that remove somebody. -/
  rotations : ∀ f ∈ w.flights, ∀ req todo pending user, f.stage = .rotating req todo pending →
    req.remove = some user → Rotation w.db f.caller req todo pending user
  /-- One rotation at a time holds an organisation. -/
  alone : ∀ f ∈ w.flights, ∀ f' ∈ w.flights, ∀ req todo pending req' todo' pending',
    f.stage = .rotating req todo pending → f'.stage = .rotating req' todo' pending' →
    .takesOrg ∉ todo → .takesOrg ∉ todo' → f.caller.org = f'.caller.org → f.id = f'.id

section Order

variable {todo : List Phase} {phase : Phase}

/-- A rotation has locked its organisation before it does anything else. -/
theorem order_cases (h : todo <:+ phases) : todo = phases ∨ .takesOrg ∉ todo := by
  rcases List.suffix_cons_iff.mp h with heq | hrest
  · exact .inl heq
  · refine .inr fun hmem => ?_
    have hin := hrest.subset hmem
    revert hin
    decide

theorem takes_of_not_mem (h : todo <:+ phases) (hp : phase ∉ todo) : .takesOrg ∉ todo := by
  rcases order_cases h with rfl | htakes
  · exact absurd (by cases phase <;> decide) hp
  · exact htakes

theorem takes_of_head (h : (phase :: todo) <:+ phases) (hp : phase ≠ .takesOrg) :
    .takesOrg ∉ phase :: todo := by
  rcases order_cases h with heq | htakes
  · exact absurd (List.head_eq_of_cons_eq heq) hp
  · exact htakes

/-- Which statements are left after each. -/
theorem order_head (h : (phase :: todo) <:+ phases) :
    (phase = .takesOrg ∧ todo = [.dropsGrants, .dropsSessions, .dropsLocks, .reseals]) ∨
      (phase = .dropsGrants ∧ todo = [.dropsSessions, .dropsLocks, .reseals]) ∨
      (phase = .dropsSessions ∧ todo = [.dropsLocks, .reseals]) ∨
      (phase = .dropsLocks ∧ todo = [.reseals]) ∨ (phase = .reseals ∧ todo = []) := by
  simpa [phases, List.suffix_cons_iff] using h

end Order

section Tables

variable {db : Db} {c : Caller} {req : RotateRequest} {todo : List Phase} {pending : Pending}
  {user : ℕ} {s : Statement}

/-- A member stays where they are unless a rotation of their organisation commits. -/
theorem inOrg_execute {org : ℕ} (h : db.inOrg user org = true)
    (hstays : ∀ o remove p n, s = .rotate o remove p n → o ≠ org) :
    (execute db s).inOrg user org = true := by
  obtain ⟨m, hm⟩ := Option.isSome_iff_exists.mp h
  obtain ⟨hlookup, horg⟩ := Option.filter_eq_some_iff.mp hm
  cases s with
  | setRole user' org' role =>
    have hset : lookup Member.user (execute db (.setRole user' org' role)).members user =
        some (if m.user = user' && m.org = org' then { m with role := role } else m) := by
      have hsame : ∀ r : Member, (r.user = user' && r.org = org') = true →
          ({ r with role := role } : Member).user = r.user := fun _ _ => rfl
      exact (lookup_updateWhere hsame).trans (congrArg _ hlookup)
    simp only [Db.inOrg, Db.member, hset]
    split <;> simpa [Option.filter] using horg
  | rotate o remove p n =>
    have hother : m.org ≠ o := fun heq => hstays o remove p n rfl
      (heq.symm.trans (by simpa using horg))
    have hkept : lookup Member.user (execute db (.rotate o remove p n)).members user = some m :=
      lookup_deleteWhere hlookup (by simp [hother])
    simp only [Db.inOrg, Db.member, hkept]
    simpa [Option.filter] using horg
  | _ => exact h

/-- A statement of another request leaves a rotation what it relies on, when it writes
nothing for the member who is being removed. -/
theorem Rotation.execute (h : Rotation db c req todo pending user) (hd : Drawn db)
    (hgrant : ∀ g, s = .putProjectGrant g → g.user = user →
      orgOfProject db g.project = some c.org → .dropsGrants ∈ todo)
    (hlock : ∀ profile, s = .putLock profile user → ∀ p, db.profile profile = some p →
      p.org = c.org → .dropsLocks ∈ todo)
    (hstays : ∀ o remove p n, s = .rotate o remove p n → .takesOrg ∉ todo → o ≠ c.org) :
    Rotation (TeamRequests.execute db s) c req todo pending user := by
  refine ⟨h.order, fun htakes => ?_, fun htakes => ?_, fun hdone g hg huser horg => ?_,
    fun hdone session hs huser => ?_, fun hdone l hl huser p hp horg => ?_⟩
  · exact inOrg_execute (h.inside htakes) fun o remove p n heq => hstays o remove p n heq htakes
  · exact (users_execute db s).symm ▸ h.known htakes
  · rcases mem_projectGrants_execute hg with heq | ⟨old, hold, hkey⟩
    · subst heq
      exact absurd (hgrant g rfl huser horg) hdone
    · have hproject : old.project = g.project := congrArg Prod.fst hkey
      have hsame : old.user = g.user := congrArg Prod.snd hkey
      rcases orgOfProject_execute horg with hfresh | hbefore
      · exact absurd (hproject ▸ hfresh) (Nat.ne_of_lt (hd.grants old hold))
      · exact hkey ▸ h.grants hdone old hold (hsame.trans huser) (hproject ▸ hbefore)
  · obtain ⟨old, hold, htoken, hsame⟩ := mem_sessions_execute hs
    exact htoken ▸ h.sessions hdone old hold (hsame.trans huser)
  · rcases mem_locks_execute hl with ⟨heq, _⟩ | ⟨old, hold, hprofile, hsame, _⟩
    · subst heq
      exact absurd (hlock l.profile (by rw [huser]) p hp horg) hdone
    · rcases profile_execute hp with hfresh | ⟨before, hbefore, hbeforeOrg⟩
      · exact absurd (hprofile ▸ hfresh) (Nat.ne_of_lt (hd.locks old hold))
      · exact hprofile ▸ h.locks hdone old hold (hsame.trans huser) before (hprofile ▸ hbefore)
          (hbeforeOrg.trans horg)

theorem Rotation.newSession (h : Rotation db c req todo pending user) {other : ℕ}
    (hother : other = user → .dropsSessions ∈ todo) :
    Rotation (TeamRuns.newSession db other) c req todo pending user := by
  refine ⟨h.order, h.inside, h.known, h.grants, fun hdone s hs huser => ?_, h.locks⟩
  rcases List.mem_cons.mp hs with rfl | hin
  · exact absurd (hother huser) hdone
  · exact h.sessions hdone s hin huser

theorem Rotation.join (h : Rotation db c req todo pending user)
    (hmembers : ∀ m ∈ db.members, m.user < db.users) (org : ℕ) (role : Role) :
    Rotation (TeamRuns.join db org role) c req todo pending user := by
  have hseat : Rotation { db with
      users := db.users + 1
      members := ⟨db.users, org, role⟩ :: db.members } c req todo pending user := by
    refine ⟨h.order, fun htakes => ?_, fun htakes => Nat.lt_succ_of_lt (h.known htakes), h.grants,
      h.sessions, h.locks⟩
    obtain ⟨m, hm⟩ := Option.isSome_iff_exists.mp (h.inside htakes)
    obtain ⟨hlookup, horg⟩ := Option.filter_eq_some_iff.mp hm
    obtain ⟨hmem, huser⟩ := lookup_some hlookup
    have hne : db.users ≠ c.user := fun heq => Nat.lt_irrefl _ (heq ▸ huser ▸ hmembers m hmem)
    have hfound : lookup Member.user (⟨db.users, org, role⟩ :: db.members) c.user = some m := by
      unfold lookup at hlookup ⊢
      rw [List.find?_cons_of_neg (by simpa using hne)]
      exact hlookup
    simp only [Db.inOrg, Db.member, hfound]
    simpa [Option.filter] using horg
  refine hseat.newSession fun heq => ?_
  by_contra hdone
  exact Nat.ne_of_lt (h.known (takes_of_not_mem h.order hdone)) heq.symm

end Tables

section Phases

variable {w : World} {c : Caller} {req : RotateRequest} {phase : Phase} {todo : List Phase}
  {before pending : Pending} {user : ℕ}

/-- One statement of a rotation that removes somebody. -/
theorem rotation_next (hm : MembersAreUsers w)
    (h : Rotation w.db c req (phase :: todo) before user) (hremove : req.remove = some user)
    (hstart : phase = .takesOrg → w.db.inOrg c.user c.org = true)
    (hnext : rotateNext w c req before phase = some pending) :
    Rotation w.db c req todo pending user := by
  have hrest : todo <:+ phases := (List.suffix_cons phase todo).trans h.order
  rcases order_head h.order with ⟨rfl, rfl⟩ | ⟨rfl, rfl⟩ | ⟨rfl, rfl⟩ | ⟨rfl, rfl⟩ | ⟨rfl, rfl⟩
  · -- It has found a member to remove.
    simp only [rotateNext, Option.ite_none_right_eq_some, Bool.and_eq_true, decide_eq_true_eq,
      hremove, Option.all_some] at hnext
    obtain ⟨⟨_, hmay⟩, _⟩ := hnext
    obtain ⟨m, hmember, _⟩ := (Option.any_eq_true _ _).mp hmay
    obtain ⟨hmem, huser, _⟩ := member_some hmember
    exact ⟨hrest, fun _ => hstart rfl, fun _ => huser ▸ hm m hmem,
      fun hdone => absurd (by simp) hdone,
      fun hdone => absurd (by simp) hdone, fun hdone => absurd (by simp) hdone⟩
  · cases hnext
    have htakes := takes_of_head h.order nofun
    refine ⟨hrest, fun _ => h.inside htakes, fun _ => h.known htakes, fun _ g hg huser horg => ?_,
      fun hdone => absurd (by simp) hdone, fun hdone => absurd (by simp) hdone⟩
    refine List.mem_map.mpr ⟨g, List.mem_filter.mpr ⟨hg, ?_⟩, rfl⟩
    simp [hremove, huser, reachesProject, horg, h.inside htakes]
  · cases hnext
    have htakes := takes_of_head h.order nofun
    refine ⟨hrest, fun _ => h.inside htakes, fun _ => h.known htakes, fun _ => h.grants (by simp),
      fun _ s hs huser => ?_, fun hdone => absurd (by simp) hdone⟩
    exact List.mem_map.mpr ⟨s, List.mem_filter.mpr ⟨hs, by simp [hremove, huser]⟩, rfl⟩
  · cases hnext
    have htakes := takes_of_head h.order nofun
    refine ⟨hrest, fun _ => h.inside htakes, fun _ => h.known htakes, fun _ => h.grants (by simp),
      fun _ => h.sessions (by simp), fun _ l hl huser p hp horg => ?_⟩
    refine List.mem_map.mpr ⟨l, List.mem_filter.mpr ⟨hl, ?_⟩, rfl⟩
    simp [hremove, huser, Db.sees, hp, horg, h.inside htakes]
  · simp only [rotateNext, Option.ite_none_right_eq_some, Option.some.injEq] at hnext
    obtain ⟨_, rfl⟩ := hnext
    have htakes := takes_of_head h.order nofun
    exact ⟨hrest, fun _ => h.inside htakes, fun _ => h.known htakes, fun _ => h.grants (by simp),
      fun _ => h.sessions (by simp), fun _ => h.locks (by simp)⟩

/-- A rotation that has just been checked. -/
theorem rotation_begun {db : Db} : Rotation db c req phases pending user :=
  ⟨List.suffix_refl _, fun hdone => absurd (by decide) hdone, fun hdone => absurd (by decide) hdone,
    fun hdone => absurd (by decide) hdone, fun hdone => absurd (by decide) hdone,
    fun hdone => absurd (by decide) hdone⟩

end Phases

section Steps

variable {w w' : World} {f : Flight} {req : RotateRequest} {todo : List Phase} {pending : Pending}
  {user : ℕ}

/-- A rotation in flight is past what it has done. -/
theorem past_of {phase : Phase} (hf : f ∈ w.flights) (hstage : f.stage = .rotating req todo pending)
    (hremove : req.remove = some user) (hphase : phase ∉ todo) :
    past w phase user f.caller.org = true := by
  refine List.any_eq_true.mpr ⟨f, hf, ?_⟩
  simp [hstage, Stage.rotation, hremove, hphase]

theorem signedOut_of (hf : f ∈ w.flights) (hstage : f.stage = .rotating req todo pending)
    (hremove : req.remove = some user) (hphase : .dropsSessions ∉ todo) :
    signedOut w user = true := by
  refine List.any_eq_true.mpr ⟨f, hf, ?_⟩
  simp [hstage, Stage.rotation, hremove, hphase]

theorem orgHeld_of (hf : f ∈ w.flights) (hstage : f.stage = .rotating req todo pending)
    (htakes : .takesOrg ∉ todo) : w.orgHeld f.caller.org = true := by
  refine List.any_eq_true.mpr ⟨f, hf, ?_⟩
  simp [hstage, Stage.rotation, htakes]

/-- Where a rotation comes from: it was checked, or it ran the statement before. -/
theorem rotating_next {s : Statement}
    (hnext : next w f = some (s, some (.rotating req todo pending))) :
    todo = phases ∨ ∃ phase before, f.stage = .rotating req (phase :: todo) before ∧
      (phase = .takesOrg → w.orgHeld f.caller.org = false) ∧
      rotateNext w f.caller req before phase = some pending := by
  rcases next_became hnext with ⟨_, rfl, _⟩ | ⟨phase, before, hstage, hrotate⟩
  · exact .inl rfl
  · refine .inr ⟨phase, before, hstage, fun hphase => ?_, hrotate⟩
    simp only [next, hstage, Option.ite_none_left_eq_some] at hnext
    simpa [hphase] using hnext.1

theorem inv_runs {id : ℕ} (hw : Inv w) (hquiet : Undisturbed w (.runs id))
    (hs : runs w id = some w') : Inv w' := by
  have hstep : step w (.runs id) = some w' := hs
  have hn : Numbered w' := numbered_step hw.numbered trivial hstep
  have hd : Drawn w'.db := drawn_step hw.drawn trivial hstep
  have hm : MembersAreUsers w' := membersAreUsers_step hw.members trivial hstep
  obtain ⟨f, hf, hid, s, st, hnext, rfl⟩ := runs_some hs
  have hlookup : lookup Flight.id w.flights id = some f := hid ▸ lookup_of_mem hw.numbered.ids hf
  have hguard := hquiet f hlookup
  simp only [hnext, Option.all_some, Bool.and_eq_true] at hguard
  obtain ⟨hstart, hleaves⟩ := hguard
  have hwrote := next_wrote hnext
  refine ⟨hn, hd, hm, ?_, ?_⟩
  · intro g hg req todo pending user hstage hremove
    rcases mem_goOn hw.numbered hf hid hg with ⟨hin, hne⟩ | ⟨stage, rfl, rfl⟩
    · -- Another rotation: nothing was written for whom it removes.
      refine (hw.rotations g hin req todo pending user hstage hremove).execute hw.drawn ?_ ?_ ?_
      · rintro grant rfl rfl horg
        by_contra hdone
        simp [leavesNothing, horg, past_of hin hstage hremove hdone] at hleaves
      · rintro profile rfl p hp horg
        by_contra hdone
        have hpast := past_of hin hstage hremove hdone
        rw [← horg] at hpast
        simp [leavesNothing, hp, hpast] at hleaves
      · rintro o remove pend n rfl htakes rfl
        obtain ⟨_, horg, req', hrotating, _⟩ := hwrote
        exact hne ((hw.alone g hin f hf _ _ _ _ _ _ hstage hrotating htakes nofun horg).trans hid)
    · -- The rotation whose statement it was.
      have hrotating : stage = .rotating req todo pending := hstage
      subst hrotating
      rcases rotating_next hnext with rfl | ⟨phase, before, hbefore, _, hrotate⟩
      · exact rotation_begun
      have hnothing : s = .nothing := by
        simp only [next, hbefore, Option.ite_none_left_eq_some, Option.some.injEq,
          Prod.mk.injEq] at hnext
        exact hnext.2.1.symm
      subst hnothing
      refine rotation_next hw.members (hw.rotations f hf _ _ _ _ hbefore hremove) hremove ?_ hrotate
      rintro rfl
      change w.db.inOrg f.caller.user f.caller.org = true
      simpa [startsInside, hbefore, hremove] using hstart
  · -- Whoever takes the organisation found it free.
    have hmoved : ∀ stage, st = some stage → ∀ g ∈ w.flights, g.id ≠ id →
        ∀ req todo pending req' todo' pending', stage = .rotating req todo pending →
        g.stage = .rotating req' todo' pending' → .takesOrg ∉ todo → .takesOrg ∉ todo' →
        f.caller.org ≠ g.caller.org := by
      rintro _ rfl g hg hne req todo pending req' todo' pending' rfl hg' htakes htakes' horg
      rcases rotating_next hnext with rfl | ⟨phase, before, hbefore, hfree, _⟩
      · exact htakes (by decide)
      by_cases hphase : phase = .takesOrg
      · have hheld := orgHeld_of hg hg' htakes'
        rw [← horg, hfree hphase] at hheld
        cases hheld
      · have hnot : .takesOrg ∉ phase :: todo := by
          simpa [htakes] using fun heq : Phase.takesOrg = phase => hphase heq.symm
        exact hne ((hw.alone f hf g hg _ _ _ _ _ _ hbefore hg' hnot htakes' horg).symm.trans hid)
    intro g hg g' hg' req todo pending req' todo' pending' hstage hstage' htakes htakes' horg
    rcases mem_goOn hw.numbered hf hid hg with ⟨hin, hne⟩ | ⟨stage, hst, rfl⟩
    · rcases mem_goOn hw.numbered hf hid hg' with ⟨hin', _⟩ | ⟨stage', hst', rfl⟩
      · exact hw.alone g hin g' hin' _ _ _ _ _ _ hstage hstage' htakes htakes' horg
      · exact absurd horg.symm
          (hmoved stage' hst' g hin hne _ _ _ _ _ _ hstage' hstage htakes' htakes)
    · rcases mem_goOn hw.numbered hf hid hg' with ⟨hin', hne'⟩ | ⟨stage', _, rfl⟩
      · exact absurd horg (hmoved stage hst g' hin' hne' _ _ _ _ _ _ hstage hstage' htakes htakes')
      · rfl

theorem Inv.flights (hw : Inv w) {a : Label} (hs : step w a = some w')
    (hflights : ∀ f ∈ w'.flights, f ∈ w.flights ∨ ∀ req todo pending,
      f.stage ≠ .rotating req todo pending)
    (hrotations : ∀ f ∈ w.flights, ∀ req todo pending user, f.stage = .rotating req todo pending →
      req.remove = some user → Rotation w.db f.caller req todo pending user →
      Rotation w'.db f.caller req todo pending user) : Inv w' := by
  refine ⟨numbered_step hw.numbered trivial hs, drawn_step hw.drawn trivial hs,
    membersAreUsers_step hw.members trivial hs, fun f hf req todo pending user hstage hremove => ?_,
    fun f hf f' hf' req todo pending req' todo' pending' hstage hstage' => ?_⟩
  · rcases hflights f hf with hin | hnot
    · exact hrotations f hin _ _ _ _ hstage hremove (hw.rotations f hin _ _ _ _ hstage hremove)
    · exact absurd hstage (hnot _ _ _)
  · rcases hflights f hf with hin | hnot
    · rcases hflights f' hf' with hin' | hnot'
      · exact hw.alone f hin f' hin' _ _ _ _ _ _ hstage hstage'
      · exact absurd hstage' (hnot' _ _ _)
    · exact absurd hstage (hnot _ _ _)

theorem inv_step : Preserved step Undisturbed Inv := by
  intro w a w' hw hquiet hs
  cases a with
  | found role =>
    have hstep := hs
    cases hs
    refine hw.flights hstep (fun f hf => .inl hf) fun f _ req todo pending user _ _ h => ?_
    have hfounded : Rotation { draw w.db with orgs := ⟨w.db.fresh, 1⟩ :: w.db.orgs } f.caller req
        todo pending user := ⟨h.order, h.inside, h.known, h.grants, h.sessions, h.locks⟩
    exact hfounded.join hw.members w.db.fresh role
  | enroll org role =>
    have hstep := hs
    simp only [step, Option.ite_none_left_eq_some, Option.some.injEq] at hs
    obtain ⟨_, rfl⟩ := hs
    exact hw.flights hstep (fun f hf => .inl hf) fun f _ req todo pending user _ _ h =>
      h.join hw.members org role
  | signIn other =>
    have hstep := hs
    simp only [step, Option.ite_none_right_eq_some, Option.some.injEq] at hs
    obtain ⟨_, rfl⟩ := hs
    refine hw.flights hstep (fun f hf => .inl hf)
      fun f hf req todo pending user hstage hremove h => h.newSession ?_
    rintro rfl
    by_contra hdone
    exact absurd (signedOut_of hf hstage hremove hdone) (by simpa [Undisturbed] using hquiet)
  | signOut token =>
    have hstep := hs
    cases hs
    refine hw.flights hstep (fun f hf => .inl hf) fun f _ req todo pending user _ _ h => ?_
    exact ⟨h.order, h.inside, h.known, h.grants,
      fun hdone s hs => h.sessions hdone s (mem_deleteWhere.mp hs).1, h.locks⟩
  | arrives token req =>
    have hstep := hs
    obtain ⟨c, _, rfl⟩ := Option.map_eq_some_iff.mp hs
    refine hw.flights hstep (fun f hf => ?_) fun f _ req todo pending user _ _ h => h
    rcases List.mem_cons.mp hf with rfl | hin
    · exact .inr fun _ _ _ h => by cases h
    · exact .inl hin
  | runs id => exact inv_runs hw hquiet hs
  | lost id =>
    have hstep := hs
    cases hs
    exact hw.flights hstep (fun f hf => .inl (mem_deleteWhere.mp hf).1)
      fun f _ req todo pending user _ _ h => h
  | tick seconds =>
    have hstep := hs
    cases hs
    refine hw.flights hstep (fun f hf => .inl hf) fun f _ req todo pending user _ _ h => ?_
    exact ⟨h.order, h.inside, h.known, h.grants, h.sessions, h.locks⟩

/-- A rotation that commits leaves nothing of the member it removes. -/
theorem gone_of_commit {id : ℕ} (hw : Inv w) (hquiet : Undisturbed w (.runs id))
    (hs : runs w id = some w') (hf : f ∈ w.flights) (hid : f.id = id)
    (hstage : f.stage = .rotating req [] pending) (hremove : req.remove = some user) :
    Gone w'.db user f.caller.org := by
  have hlookup : lookup Flight.id w.flights id = some f := hid ▸ lookup_of_mem hw.numbered.ids hf
  have h := hw.rotations f hf _ _ _ _ hstage hremove
  have hnext : next w f =
      some (.rotate f.caller.org req.remove pending (req.generation + 1), none) := by
    simp only [next, hstage]
  have hguard := hquiet f hlookup
  simp only [hnext, Option.all_some, Bool.and_eq_true] at hguard
  obtain ⟨_, hshares⟩ := hguard
  simp only [runs, hlookup, Option.bind_some, hnext, Option.map_some, Option.some.injEq] at hs
  subst hs
  refine ⟨fun m hm huser horg => ?_, fun g hg huser horg => ?_, fun g hg huser p hp horg => ?_,
    fun s hs huser => ?_, fun l hl huser p hp horg => ?_⟩
  · have hkept := (mem_deleteWhere.mp hm).2
    simp [horg, huser, hremove] at hkept
  · obtain ⟨hin, hkept⟩ := mem_deleteWhere.mp hg
    have hdeleted := h.grants List.not_mem_nil g hin huser horg
    simp [hdeleted] at hkept
  · obtain ⟨old, hold, hsame⟩ : ∃ old ∈ w.db.profileGrants, old.user = g.user ∧
        old.profile = g.profile := by
      rcases updateWhere_cases hg with ⟨hin, _⟩ | ⟨old, hold, _, rfl⟩
      · exact ⟨g, hin, rfl, rfl⟩
      · exact ⟨old, hold, rfl, rfl⟩
    have hp' : w.db.profile g.profile = some p := hp
    have hclean := List.all_eq_true.mp hshares old hold
    simp [hsame.1, hsame.2, huser, hremove, hp', horg] at hclean
  · obtain ⟨hin, hkept⟩ := mem_deleteWhere.mp hs
    have hdeleted := h.sessions List.not_mem_nil s hin huser
    simp [hdeleted] at hkept
  · obtain ⟨hin, hkept⟩ := mem_deleteWhere.mp hl
    have hdeleted := h.locks List.not_mem_nil l hin huser p hp horg
    simp [hdeleted] at hkept

end Steps

end FuryBrowser.MemberRemoved
