import FuryBrowser.MemberRemoved

/-!
# Taking access away

`revoke_access` and `revoke_share` delete a grant and then the locks of whoever had
it. A lock request asks for permission in one statement and takes the lock in
another, and a heartbeat asks for the token of the lock and for nothing else. So a
lock taken behind the second statement stays for as long as its heartbeats come, and
so does one that its holder loses the right to by the clock.

Together with what a rotation leaves of a member, here is when taking access away
leaves nothing behind.
-/

namespace FuryBrowser.AccessTaken

open GuardedRuns RowTable Permissions TeamTables TeamRequests TeamRuns TeamSteps MemberRemoved
open OrgKeys (Role)
open ProfileLocks (Lock)

/-- Somebody may launch a profile. -/
def mayLaunch (db : Db) (user profile : ℕ) : Bool :=
  (db.permissionsForProfile user profile).has .launch

/-- Whose access to which profiles a request takes away with its next statement. -/
def revocation (db : Db) : Stage → Option (ℕ × List ℕ)
  | .revokingLocks project user =>
    some (user, (db.profiles.filter fun p => p.project = project).map Profile.id)
  | .unsharingLocks profile user => some (user, [profile])
  | _ => none

/-- What somebody holds of these profiles, they may hold. -/
structure HeldByRight (db : Db) (user : ℕ) (profiles : List ℕ) : Prop where
  /-- They have no lock that their permissions do not allow, -/
  locks : ∀ l ∈ db.locks, l.user = user → l.profile ∈ profiles →
    mayLaunch db user l.profile = true
  /-- and no heartbeat of theirs finds one to extend. -/
  beats : ∀ profile ∈ profiles, mayLaunch db user profile = false → ∀ token,
    ∀ l ∈ db.locks, ¬ (l.profile = profile ∧ l.user = user ∧ l.token = token)

/-- A request for a lock, a heartbeat or a release. -/
def asksForLock : Request → Bool
  | .acquireLock .. | .heartbeat .. | .releaseLock .. => true
  | _ => false

/-- A stage of such a request. -/
def Stage.ofLock : Stage → Bool
  | .arrived _ req | .begun req => asksForLock req
  | .locking .. | .beating .. | .releasing .. => true
  | _ => false

/-- Somebody has these profiles' lock, or is about to take it. -/
def holdsOrTakes (w : World) (user profile : ℕ) : Bool :=
  w.db.locks.any (fun l => l.user = user && l.profile = profile) ||
    w.flights.any fun f => f.caller.user = user && match f.stage with
      | .locking asked _ => asked = profile
      | _ => false

/-- The clock. -/
def later (db : Db) (seconds : ℕ) : Db := { db with now := db.now + seconds }

/-- Somebody's own lock requests, heartbeats and releases, and time. It does not take
the right to launch from them while they hold or are about to take the lock. -/
def OwnLocks (user : ℕ) (profiles : List ℕ) (w : World) : Label → Prop
  | .arrives token req => asksForLock req = true ∧ ∀ c ∈ callerOf w.db token, c.user = user
  | .runs id => ∀ f ∈ lookup Flight.id w.flights id, f.caller.user = user ∧
      Stage.ofLock f.stage = true
  | .lost _ => True
  | .tick seconds => ∀ profile ∈ profiles, holdsOrTakes w user profile = true →
      mayLaunch w.db user profile = true → mayLaunch (later w.db seconds) user profile = true
  | _ => False

/-- When a revocation deletes locks: its caller sees those that are no longer allowed,
and nobody is about to take such a lock behind it. -/
def revokesAll (w : World) (f : Flight) : Bool :=
  (revocation w.db f.stage).all fun r =>
    (w.db.locks.all fun l => l.user ≠ r.1 || l.profile ∉ r.2 ||
      w.db.sees f.caller.user l.profile || mayLaunch w.db r.1 l.profile) &&
    w.flights.all fun g => g.caller.user ≠ r.1 || match g.stage with
      | .locking profile _ => profile ∉ r.2 || mayLaunch w.db r.1 profile
      | _ => true

/-- Nothing happens behind the back of a rotation or of a revocation. -/
def Unevaded (w : World) (a : Label) : Prop :=
  Undisturbed w a ∧ match a with
    | .runs id => ∀ f ∈ lookup Flight.id w.flights id, revokesAll w f = true
    | _ => True

instance : DecidableRel Unevaded := fun w a => by
  rcases a with _ | _ <;> dsimp only [Unevaded] <;> infer_instance

/-- What is promised of a step that takes access away. -/
structure Total (w : World) (a : Label) (w' : World) : Prop where
  /-- A rotation that commits leaves nothing of whom it removes. -/
  removed : ∀ f ∈ w.flights, a = .runs f.id → ∀ req pending user,
    f.stage = .rotating req [] pending → req.remove = some user → Gone w'.db user f.caller.org
  /-- A revocation that returns leaves no lock that is not allowed, whatever its
  holder's requests do then. -/
  revoked : ∀ f ∈ w.flights, a = .runs f.id → ∀ user profiles,
    revocation w.db f.stage = some (user, profiles) →
    ∀ w'', Reached (· = w') step (OwnLocks user profiles) w'' → HeldByRight w''.db user profiles

/-- What the requests of somebody for locks keep. -/
structure Rightful (user : ℕ) (profiles : List ℕ) (w : World) : Prop where
  /-- Requests have ids of their own. -/
  numbered : Numbered w
  /-- Their locks are allowed. -/
  locks : ∀ l ∈ w.db.locks, l.user = user → l.profile ∈ profiles →
    mayLaunch w.db user l.profile = true
  /-- So are those they are about to take. -/
  taking : ∀ f ∈ w.flights, f.caller.user = user → ∀ profile force,
    f.stage = .locking profile force → profile ∈ profiles → mayLaunch w.db user profile = true

section Steps

variable {w w' : World} {f : Flight} {s : Statement} {st : Option Stage} {user : ℕ}
  {profiles : List ℕ}

/-- Lock requests leave everybody's permissions as they are. -/
theorem mayLaunch_next {profile : ℕ} (hstage : Stage.ofLock f.stage = true)
    (hnext : next w f = some (s, st)) :
    mayLaunch (execute w.db s) user profile = mayLaunch w.db user profile := by
  unfold next at hnext
  cases hf : f.stage with
  | arrived token req =>
    simp only [hf, Option.ite_none_left_eq_some, Option.some.injEq, Prod.mk.injEq] at hnext
    obtain ⟨_, rfl, _⟩ := hnext
    rfl
  | begun req =>
    simp only [hf, Option.some.injEq, Prod.mk.injEq] at hnext
    obtain ⟨rfl, _⟩ := hnext
    rfl
  | locking asked force =>
    simp only [hf, Option.ite_none_left_eq_some, Option.some.injEq, Prod.mk.injEq] at hnext
    obtain ⟨_, rfl, _⟩ := hnext
    unfold takeLock
    split <;> rfl
  | beating asked token =>
    simp only [hf, Option.ite_none_left_eq_some, Option.some.injEq, Prod.mk.injEq] at hnext
    obtain ⟨_, rfl, _⟩ := hnext
    unfold beat
    split <;> rfl
  | releasing asked token =>
    simp only [hf, Option.ite_none_left_eq_some, Option.some.injEq, Prod.mk.injEq] at hnext
    obtain ⟨_, rfl, _⟩ := hnext
    unfold release
    split <;> rfl
  | _ => simp [hf, Stage.ofLock] at hstage

/-- A lock that is about to be taken was allowed when it was checked. -/
theorem mayLaunch_of_locking {profile : ℕ} {force : Bool}
    (hnext : next w f = some (s, some (.locking profile force))) :
    mayLaunch w.db f.caller.user profile = true := by
  obtain ⟨_, hchecked⟩ := next_became hnext
  simp only [acquireLock, Bool.and_eq_true] at hchecked
  exact hchecked.1

theorem rightful_runs {id : ℕ} (hw : Rightful user profiles w)
    (hown : OwnLocks user profiles w (.runs id)) (hs : runs w id = some w') :
    Rightful user profiles w' := by
  have hn : Numbered w' :=
    numbered_step hw.numbered trivial (show step w (.runs id) = some w' from hs)
  obtain ⟨f, hf, hid, s, st, hnext, rfl⟩ := runs_some hs
  obtain ⟨huser, hlock⟩ := hown f (hid ▸ lookup_of_mem hw.numbered.ids hf)
  refine ⟨hn, fun l hl hlu hlp => ?_, fun g hg hgu profile force hstage hin => ?_⟩
  · rw [mayLaunch_next hlock hnext]
    rcases mem_locks_execute hl with ⟨rfl, _⟩ | ⟨old, hold, hprofile, hsame, _⟩
    · obtain ⟨_, hcaller, _, force, hstage, _⟩ := next_wrote hnext
      exact hw.taking f hf huser _ _ hstage hlp
    · exact hprofile ▸ hw.locks old hold (hsame.trans hlu) (hprofile ▸ hlp)
  · rw [mayLaunch_next hlock hnext]
    rcases mem_goOn hw.numbered hf hid hg with ⟨hold, _⟩ | ⟨stage, rfl, rfl⟩
    · exact hw.taking g hold hgu _ _ hstage hin
    · have hlocking : stage = .locking profile force := hstage
      subst hlocking
      exact huser ▸ mayLaunch_of_locking hnext

theorem rightful_step : Preserved step (OwnLocks user profiles) (Rightful user profiles) := by
  intro w a w' hw hown hs
  have hn : Numbered w' := numbered_step hw.numbered trivial hs
  cases a with
  | arrives token req =>
    obtain ⟨c, _, rfl⟩ := Option.map_eq_some_iff.mp hs
    refine ⟨hn, hw.locks, fun f hf huser profile force hstage => ?_⟩
    rcases List.mem_cons.mp hf with rfl | hin
    · cases hstage
    · exact hw.taking f hin huser profile force hstage
  | runs id => exact rightful_runs hw hown hs
  | lost id =>
    cases hs
    exact ⟨hn, hw.locks, fun f hf => hw.taking f (mem_deleteWhere.mp hf).1⟩
  | tick seconds =>
    cases hs
    refine ⟨hn, fun l hl huser hin => ?_, fun f hf huser profile force hstage hin => ?_⟩
    · refine hown l.profile hin ?_ (hw.locks l hl huser hin)
      refine Bool.or_eq_true_iff.mpr (.inl (List.any_eq_true.mpr ⟨l, hl, ?_⟩))
      simp [huser]
    · refine hown profile hin ?_ (hw.taking f hf huser profile force hstage hin)
      refine Bool.or_eq_true_iff.mpr (.inr (List.any_eq_true.mpr ⟨f, hf, ?_⟩))
      simp [huser, hstage]
  | found role | enroll org role | signIn other | signOut token => exact absurd hown id

theorem Rightful.held (hw : Rightful user profiles w) : HeldByRight w.db user profiles := by
  refine ⟨hw.locks, ?_⟩
  rintro profile hin hdenied token l hl ⟨rfl, huser, _⟩
  exact Bool.eq_false_iff.mp hdenied (hw.locks l hl huser hin)

/-- What a revocation's last statement leaves. -/
theorem rightful_revoked {id : ℕ} (hn : Numbered w) (hf : f ∈ w.flights) (hid : f.id = id)
    (hrevokes : revocation w.db f.stage = some (user, profiles)) (hall : revokesAll w f = true)
    (hs : runs w id = some w') : Rightful user profiles w' := by
  have hn' : Numbered w' := numbered_step hn trivial (show step w (.runs id) = some w' from hs)
  simp only [revokesAll, hrevokes, Option.all_some, Bool.and_eq_true] at hall
  obtain ⟨hlocks, hflights⟩ := hall
  -- It deletes the locks that its caller sees.
  obtain ⟨seen, hdb, hsees⟩ : ∃ seen, w'.db = execute w.db (.dropLocks user seen) ∧
      ∀ profile ∈ profiles, w.db.sees f.caller.user profile = true → profile ∈ seen := by
    have hlookup : lookup Flight.id w.flights id = some f := hid ▸ lookup_of_mem hn.ids hf
    cases hstage : f.stage with
    | revokingLocks project other =>
      simp only [hstage, revocation, Option.some.injEq, Prod.mk.injEq] at hrevokes
      obtain ⟨rfl, rfl⟩ := hrevokes
      simp only [runs, hlookup, Option.bind_some, next, hstage, Option.map_some,
        Option.some.injEq] at hs
      subst hs
      refine ⟨_, rfl, fun profile hprofile hsees => ?_⟩
      obtain ⟨p, hp, rfl⟩ := List.mem_map.mp hprofile
      obtain ⟨hmem, hproject⟩ := List.mem_filter.mp hp
      exact List.mem_map.mpr ⟨p, List.mem_filter.mpr ⟨hmem, by simpa [hsees] using hproject⟩, rfl⟩
    | unsharingLocks profile other =>
      simp only [hstage, revocation, Option.some.injEq, Prod.mk.injEq] at hrevokes
      obtain ⟨rfl, rfl⟩ := hrevokes
      simp only [runs, hlookup, Option.bind_some, next, hstage, Option.map_some,
        Option.some.injEq] at hs
      subst hs
      refine ⟨_, rfl, fun asked hasked hsees => ?_⟩
      rw [List.mem_singleton] at hasked
      subst hasked
      simp [hsees]
    | _ => simp [hstage, revocation] at hrevokes
  have hsame : ∀ profile, mayLaunch w'.db user profile = mayLaunch w.db user profile := by
    intro profile
    rw [hdb]
    rfl
  refine ⟨hn', fun l hl hlu hlp => ?_, fun g hg hgu profile force hstage hin => ?_⟩
  · rw [hsame]
    rw [hdb] at hl
    obtain ⟨hin, hkept⟩ := mem_deleteWhere.mp hl
    have hunseen : w.db.sees f.caller.user l.profile = false := by
      by_contra hsaw
      simp [hlu, hsees l.profile hlp (by simpa using hsaw)] at hkept
    simpa [hlu, hlp, hunseen] using List.all_eq_true.mp hlocks l hin
  · rw [hsame]
    obtain ⟨f', hf', hid', s, st, hnext, rfl⟩ := runs_some hs
    have hsame' : f' = f := hn.ids.eq hf' hf (hid'.trans hid.symm)
    subst hsame'
    rcases mem_goOn hn hf' hid hg with ⟨hold, _⟩ | ⟨stage, rfl, rfl⟩
    · simpa [hgu, hstage, hin] using List.all_eq_true.mp hflights g hold
    · have hlocking : stage = .locking profile force := hstage
      subst hlocking
      obtain ⟨hbegun, _⟩ := next_became hnext
      simp [hbegun, revocation] at hrevokes

end Steps

/-- Taking access away leaves nothing behind when nothing happens behind its back. -/
theorem access_is_taken {w w' : World} {a : Label} (hr : Reached init step Unevaded w)
    (hg : Unevaded w a) (hs : step w a = some w') : Total w a w' := by
  have hempty : Inv empty := ⟨numbered_empty, ⟨List.forall_mem_nil _, List.forall_mem_nil _,
    List.forall_mem_nil _, List.forall_mem_nil _⟩, List.forall_mem_nil _, List.forall_mem_nil _,
    List.forall_mem_nil _⟩
  have hw : Inv w := by
    refine hr.invariant Inv (fun _ hi => hi ▸ hempty) ?_
    intro w a w' h hquiet hs
    exact inv_step h hquiet.1 hs
  refine ⟨?_, ?_⟩
  · rintro f hf rfl req pending user hstage hremove
    exact gone_of_commit hw hg.1 hs hf rfl hstage hremove
  · rintro f hf rfl user profiles hrevokes w'' hr''
    have hall := hg.2 f (lookup_of_mem hw.numbered.ids hf)
    have hstart := rightful_revoked hw.numbered hf rfl hrevokes hall hs
    exact (hr''.invariant (Rightful user profiles) (fun _ hi => hi ▸ hstart) rightful_step).held

/-- The plain member may launch the profile and has it open, and the owner removes them;
the rotation is about to commit. -/
def leaving : List Label :=
  team ++ whole 2 1 (.grantAccess 4 2 [.view, .launch] none none none) 3 ++
    whole 3 3 (.acquireLock 5 false) 3 ++ whole 4 1 (.rotateOrgKey ⟨some 2, [], 1⟩) 7

/-- They had a grant and a lock, and have nothing then. -/
theorem access_is_taken_leaving : mayLaunch (after leaving).db 2 5 = true ∧
    (after leaving).db.locks.any (fun l => l.user = 2) = true ∧
    Total (after leaving) (.runs 4) (after (leaving ++ [.runs 4])) := by
  have hempty : Reached init step Unevaded empty := .start rfl
  have hleaving : Reached init step Unevaded (after leaving) :=
    hempty.run leaving (by decide) (by decide)
  exact ⟨by decide, by decide,
    access_is_taken hleaving (by decide) (by decide)⟩

/-- The owner shares the profile with the plain member and then removes them. The
rotation, about to commit, has sealed the share again. -/
def leavingShared : List Label :=
  team ++ whole 2 1 (.shareProfile 5 2 [.view, .launch] none 1) 3 ++
    whole 3 1 (.rotateOrgKey ⟨some 2, [(5, 2)], 1⟩) 7

/-- The removed member keeps the share, with a key of the new generation. -/
theorem removed_member_keeps_share : ¬ ∀ w w' a, Reached init step anyStep w →
    step w a = some w' → Total w a w' := by
  intro h
  have hempty : Reached init step anyStep empty := .start rfl
  have hleaving : Reached init step anyStep (after leavingShared) :=
    hempty.run_any leavingShared (by decide)
  have htotal : Total (after leavingShared) (.runs 3) (after (leavingShared ++ [.runs 3])) :=
    h _ _ _ hleaving (by decide)
  have hgone := htotal.removed
    ⟨3, ⟨0, 0, .owner⟩, .rotating ⟨some 2, [(5, 2)], 1⟩ [] ⟨[], [3], [], [(5, 2)]⟩⟩
    (by decide) rfl _ _ 2 rfl rfl
  have hshare : (⟨5, 2, PermSet.fromIter [.view, .launch], none, 2⟩ : ProfileGrant) ∈
      (after (leavingShared ++ [.runs 3])).db.profileGrants := by decide
  exact hgone.profileGrants _ hshare rfl ⟨5, 0, 4, false⟩ (by decide) rfl

end FuryBrowser.AccessTaken
