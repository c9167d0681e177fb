import FuryBrowser.ProfileLocks

/-!
# One lock to a profile

A profile's lock is one row, and its token is drawn afresh each time the row is
taken. A token that has left the row therefore never comes back, and every
statement that asks for a token asks for the one in the row.

All of this holds in every run, with no restriction on the schedule.
-/

namespace FuryBrowser.LockSafety

open GuardedRuns RowTable ProfileLocks

/-- `heartbeat` finds a row to extend. -/
def heartbeatAccepts (w : World) (profile user token : ℕ) : Bool :=
  w.locks.any fun l => l.profile = profile && l.user = user && l.token = token

/-- No heartbeat and no upload is accepted with this token. -/
def Refused (w : World) (token : ℕ) : Prop :=
  (∀ profile user, heartbeatAccepts w profile user token = false) ∧
    ∀ u, u.token = token → holdsLock w u = false

/-- A step takes a lock's token out of use: the profile's lock has another token
by then, or the lock was released, or its holder's access was revoked. -/
def Ends (a : Label) (w' : World) (l : Lock) : Prop :=
  (∃ l' ∈ w'.locks, l'.profile = l.profile ∧ l'.token ≠ l.token) ∨
    a = .release l.profile l.token ∨ ∃ profiles, l.profile ∈ profiles ∧ a = .revoke l.user profiles

/-- What is promised of locks in a state, whatever happens next. -/
structure LocksSafe (w : World) : Prop where
  /-- A profile has one lock, and so one token. -/
  one : KeyUnique Lock.profile w.locks
  /-- A plain acquisition succeeds only when no unexpired lock is there. -/
  plain : ∀ id w', step w (.lockTakes id) = some w' → ∀ q ∈ lookup Acquisition.id w.acquisitions id,
    q.force = false → w'.nextToken ≠ w.nextToken → ∀ l ∈ w.locks, l.profile = q.profile →
      l.expires ≤ w.now
  /-- A token that was replaced, released or revoked is never accepted again. -/
  ended : ∀ a w' l, l ∈ w.locks → step w a = some w' → Ends a w' l →
    ∀ later, Reached (· = w') step anyStep later → Refused later l.token
  /-- A heartbeat leaves locks with another token as they are. -/
  beats : ∀ profile user token w', step w (.heartbeat profile user token) = some w' →
    ∀ l : Lock, l.token ≠ token → (l ∈ w'.locks ↔ l ∈ w.locks)
  releases : ∀ profile token w', step w (.release profile token) = some w' →
    ∀ l : Lock, l.token ≠ token → (l ∈ w'.locks ↔ l ∈ w.locks)

/-- What a step does to locks. -/
inductive LockStep (w w' : World) : Prop where
  | same (hl : w'.locks = w.locks) (ht : w'.nextToken = w.nextToken)
  /-- A profile with no lock gets one. -/
  | taken {profile user : ℕ} (hnone : w.lock profile = none)
    (hl : w'.locks = ⟨profile, user, w.nextToken, w.now + 90⟩ :: w.locks)
    (ht : w'.nextToken = w.nextToken + 1)
  /-- A profile's lock gets a new token. -/
  | replaced {profile user : ℕ}
    (hl : w'.locks = updateWhere (fun l => l.profile = profile)
      (fun _ => ⟨profile, user, w.nextToken, w.now + 90⟩) w.locks)
    (ht : w'.nextToken = w.nextToken + 1)
  | extended {p : Lock → Bool}
    (hl : w'.locks = updateWhere p (fun l => { l with expires := w.now + 90 }) w.locks)
    (ht : w'.nextToken = w.nextToken)
  | fewer {p : Lock → Bool} (hl : w'.locks = deleteWhere p w.locks)
    (ht : w'.nextToken = w.nextToken)

/-- What every run keeps of locks. -/
structure Inv (w : World) : Prop where
  /-- A profile has one lock. -/
  profiles : KeyUnique Lock.profile w.locks
  tokens : KeyUnique Lock.token w.locks
  /-- The next token is a new one. -/
  old : ∀ l ∈ w.locks, l.token < w.nextToken

theorem inv_empty : Inv empty := ⟨keyUnique_nil, keyUnique_nil, nofun⟩

section Steps

variable {w w' : World} {a : Label}

theorem lockTakes_locks {id : ℕ} (hs : lockTakes w id = some w') : LockStep w w' := by
  obtain ⟨q, _, hs⟩ := Option.bind_eq_some_iff.mp hs
  cases hl : w.lock q.profile with
  | none =>
    simp only [hl, Option.ite_none_left_eq_some] at hs
    obtain ⟨_, hs⟩ := hs
    split at hs <;> cases hs
    · exact .same rfl rfl
    · exact .taken hl rfl rfl
  | some old =>
    simp only [hl] at hs
    split at hs <;> cases hs
    · exact .replaced rfl rfl
    · exact .same rfl rfl

theorem step_locks (hs : step w a = some w') : LockStep w w' := by
  cases a with
  | createProfile profile =>
    simp only [step, createProfile, Option.ite_none_left_eq_some, Option.some.injEq] at hs
    obtain ⟨_, rfl⟩ := hs
    exact .same rfl rfl
  | lockAsks profile user force =>
    simp only [step, lockAsks, Option.ite_none_right_eq_some, Option.some.injEq] at hs
    obtain ⟨_, rfl⟩ := hs
    exact .same rfl rfl
  | lockTakes id => exact lockTakes_locks hs
  | heartbeat profile user token =>
    cases hs
    exact .extended rfl rfl
  | release profile token =>
    cases hs
    exact .fewer rfl rfl
  | revoke user profiles =>
    cases hs
    exact .fewer rfl rfl
  | uploadAsks profile token base =>
    simp only [step, uploadAsks, Option.ite_none_right_eq_some, Option.some.injEq] at hs
    obtain ⟨_, rfl⟩ := hs
    exact .same rfl rfl
  | uploadChecks id =>
    obtain ⟨u, _, hs⟩ := Option.bind_eq_some_iff.mp hs
    simp only [Option.ite_none_right_eq_some, Option.some.injEq] at hs
    obtain ⟨_, rfl⟩ := hs
    split <;> exact .same rfl rfl
  | uploadLocks id =>
    obtain ⟨u, _, hs⟩ := Option.bind_eq_some_iff.mp hs
    simp only [Option.ite_none_right_eq_some] at hs
    obtain ⟨_, hs⟩ := hs
    split at hs <;> cases hs
    · exact .same rfl rfl
    · split <;> exact .same rfl rfl
  | uploadCommits id =>
    obtain ⟨u, _, hs⟩ := Option.bind_eq_some_iff.mp hs
    simp only [Option.ite_none_right_eq_some, Option.some.injEq] at hs
    obtain ⟨_, rfl⟩ := hs
    exact .same rfl rfl
  | uploadFails id =>
    cases hs
    exact .same rfl rfl
  | deleteAsks profiles =>
    simp only [step, deleteAsks, Option.ite_none_left_eq_some, Option.some.injEq] at hs
    obtain ⟨_, rfl⟩ := hs
    exact .same rfl rfl
  | deleteWrites id =>
    obtain ⟨q, _, hs⟩ := Option.bind_eq_some_iff.mp hs
    simp only [Option.ite_none_left_eq_some, Option.some.injEq] at hs
    obtain ⟨_, rfl⟩ := hs
    exact .same rfl rfl
  | restore profile =>
    simp only [step, restore, Option.ite_none_left_eq_some, Option.some.injEq] at hs
    obtain ⟨_, rfl⟩ := hs
    exact .same rfl rfl
  | purge profile =>
    simp only [step, purge, Option.ite_none_left_eq_some, Option.some.injEq] at hs
    obtain ⟨_, rfl⟩ := hs
    exact .fewer rfl rfl
  | tick seconds =>
    cases hs
    exact .same rfl rfl

/-- Every lock after a step has a token from before it or the next new one, and
on which profile. -/
theorem LockStep.token (h : LockStep w w') {l' : Lock} (hl' : l' ∈ w'.locks) :
    (∃ l ∈ w.locks, l.token = l'.token ∧ l.profile = l'.profile ∧ l.user = l'.user) ∨
      (l'.token = w.nextToken ∧ w'.nextToken = w.nextToken + 1) := by
  cases h with
  | same hl _ => exact .inl ⟨l', hl ▸ hl', rfl, rfl, rfl⟩
  | taken _ hl ht =>
    rw [hl] at hl'
    rcases List.mem_cons.mp hl' with rfl | hin
    · exact .inr ⟨rfl, ht⟩
    · exact .inl ⟨l', hin, rfl, rfl, rfl⟩
  | replaced hl ht =>
    rw [hl] at hl'
    rcases updateWhere_cases hl' with ⟨hin, _⟩ | ⟨old, _, _, rfl⟩
    · exact .inl ⟨l', hin, rfl, rfl, rfl⟩
    · exact .inr ⟨rfl, ht⟩
  | extended hl _ =>
    rw [hl] at hl'
    rcases updateWhere_cases hl' with ⟨hin, _⟩ | ⟨old, hin, _, rfl⟩
    · exact .inl ⟨l', hin, rfl, rfl, rfl⟩
    · exact .inl ⟨old, hin, rfl, rfl, rfl⟩
  | fewer hl _ =>
    rw [hl] at hl'
    exact .inl ⟨l', (mem_deleteWhere.mp hl').1, rfl, rfl, rfl⟩

theorem LockStep.nextToken_le (h : LockStep w w') : w.nextToken ≤ w'.nextToken := by
  cases h <;> omega

theorem LockStep.profiles (h : LockStep w w') (hw : KeyUnique Lock.profile w.locks) :
    KeyUnique Lock.profile w'.locks := by
  cases h with
  | same hl _ =>
    rw [hl]
    exact hw
  | taken hnone hl _ =>
    rw [hl]
    exact hw.cons (lookup_none hnone)
  | replaced hl _ =>
    rw [hl]
    exact hw.updateWhere fun l hp => (of_decide_eq_true hp).symm
  | extended hl _ =>
    rw [hl]
    exact hw.updateWhere fun _ _ => rfl
  | fewer hl _ =>
    rw [hl]
    exact hw.deleteWhere

/-- Tokens keep one lock each, as a new one is in no lock yet. -/
theorem LockStep.tokens (h : LockStep w w') (hw : Inv w) : KeyUnique Lock.token w'.locks := by
  cases h with
  | same hl _ =>
    rw [hl]
    exact hw.tokens
  | taken _ hl _ =>
    rw [hl]
    exact hw.tokens.cons fun l hin => Nat.ne_of_lt (hw.old l hin)
  | @replaced profile user hl _ =>
    rw [hl]
    exact hw.profiles.replace hw.tokens fun l hin => Nat.ne_of_lt (hw.old l hin)
  | extended hl _ =>
    rw [hl]
    exact hw.tokens.updateWhere fun _ _ => rfl
  | fewer hl _ =>
    rw [hl]
    exact hw.tokens.deleteWhere

theorem inv_step : Preserved step anyStep Inv := by
  intro w a w' hw _ hs
  have h := step_locks hs
  refine ⟨h.profiles hw.profiles, h.tokens hw, fun l' hl' => ?_⟩
  rcases h.token hl' with ⟨l, hl, heq, _⟩ | ⟨heq, hnext⟩
  · exact Nat.lt_of_lt_of_le (heq ▸ hw.old l hl) h.nextToken_le
  · omega

/-- A token that was handed out and is in no lock any more. -/
def Spent (w : World) (token : ℕ) : Prop := token < w.nextToken ∧ ∀ l ∈ w.locks, l.token ≠ token

theorem spent_step {token : ℕ} : Preserved step anyStep (Spent · token) := by
  intro w a w' h _ hs
  have hlocks := step_locks hs
  refine ⟨Nat.lt_of_lt_of_le h.1 hlocks.nextToken_le, fun l' hl' heq => ?_⟩
  rcases hlocks.token hl' with ⟨l, hl, hsame, _⟩ | ⟨hnew, _⟩
  · exact h.2 l hl (hsame.trans heq)
  · exact absurd h.1 (by omega)

/-- Whoever asks for a token asks for the one in the row. -/
theorem refused_of_spent {token : ℕ} (h : Spent w token) : Refused w token := by
  refine ⟨fun profile user => ?_, fun u hu => ?_⟩
  · refine List.any_eq_false.mpr fun l hl => ?_
    simp [h.2 l hl]
  · refine List.any_eq_false.mpr fun l hl => ?_
    simp [hu, h.2 l hl]

/-- A token that is taken out of use is in no lock afterwards. -/
theorem spent_of_ends (hw : Inv w) {l : Lock} (hl : l ∈ w.locks) (hs : step w a = some w')
    (hends : Ends a w' l) : Spent w' l.token := by
  have h := step_locks hs
  refine ⟨Nat.lt_of_lt_of_le (hw.old l hl) h.nextToken_le, fun l' hl' heq => ?_⟩
  -- A lock with the token is the old one, on its profile and its holder's.
  have hsame : l'.profile = l.profile ∧ l'.user = l.user := by
    rcases h.token hl' with ⟨old, hold, htoken, hprofile, huser⟩ | ⟨hnew, _⟩
    · have hlock := hw.tokens.eq hold hl (htoken.trans heq)
      exact ⟨hlock ▸ hprofile.symm, hlock ▸ huser.symm⟩
    · exact absurd (hw.old l hl) (by omega)
  rcases hends with ⟨other, hother, hprofile, hne⟩ | rfl | ⟨profiles, hin, rfl⟩
  · have hlock := (h.profiles hw.profiles).eq hother hl' (hprofile.trans hsame.1.symm)
    exact hne (hlock ▸ heq)
  · cases hs
    simpa [hsame.1, heq] using (mem_deleteWhere.mp hl').2
  · cases hs
    simpa [hsame.1, hsame.2, hin] using (mem_deleteWhere.mp hl').2

/-- A lock that is there yields to a plain acquisition only when it has lapsed. -/
theorem lapsed_of_plain (hw : Inv w) {id : ℕ} (hs : lockTakes w id = some w') {q : Acquisition}
    (hq : lookup Acquisition.id w.acquisitions id = some q) (hforce : q.force = false)
    (htaken : w'.nextToken ≠ w.nextToken) {l : Lock} (hl : l ∈ w.locks)
    (hprofile : l.profile = q.profile) : l.expires ≤ w.now := by
  have hlock : w.lock q.profile = some l := hprofile ▸ lookup_of_mem hw.profiles hl
  simp only [lockTakes, hq, Option.bind_some, hlock, hforce, Bool.or_false,
    decide_eq_true_eq] at hs
  split at hs <;> cases hs
  · assumption
  · exact absurd rfl htaken

end Steps

/-- However acquisitions, heartbeats, releases, revocations and uploads
interleave, locks are safe in every state. -/
theorem locks_are_safe {w : World} (hr : Reached init step anyStep w) : LocksSafe w := by
  have hw := hr.invariant Inv (fun _ hi => hi ▸ inv_empty) inv_step
  refine
    { one := hw.profiles
      plain := fun id w' hs q hq hforce htaken l hl hprofile =>
        lapsed_of_plain hw hs hq hforce htaken hl hprofile
      ended := fun a w' l hl hs hends later hlater => ?_
      beats := fun profile user token w' hs l hne => ?_
      releases := fun profile token w' hs l hne => ?_ }
  · have hspent := spent_of_ends hw hl hs hends
    exact refused_of_spent
      (hlater.invariant (Spent · l.token) (fun _ heq => heq ▸ hspent) spent_step)
  · cases hs
    refine ⟨fun hl => ?_, fun hl => mem_updateWhere_of_not hl (by simp [hne])⟩
    rcases updateWhere_cases hl with ⟨hin, _⟩ | ⟨old, _, hp, rfl⟩
    · exact hin
    · exact absurd (by simpa using hp) fun h : (old.profile = profile ∧ old.user = user) ∧
        old.token = token => hne h.2
  · cases hs
    exact mem_deleteWhere.trans (by simp [hne])

/-- One person's lock lapses, and another takes the profile. -/
def takenAfterLapse : List Label :=
  [.createProfile 5, .lockAsks 5 1 false, .lockTakes 0, .tick 90, .lockAsks 5 2 false]

/-- The first token is refused from the takeover on, after more heartbeats too. -/
theorem locks_are_safe_replaced :
    Refused (after (takenAfterLapse ++ [.lockTakes 1, .heartbeat 5 1 0, .tick 10])) 0 := by
  have hempty : Reached init step anyStep empty := .start rfl
  have hreached : Reached init step anyStep (after takenAfterLapse) :=
    hempty.run_any takenAfterLapse (by decide)
  have htakes : step (after takenAfterLapse) (.lockTakes 1) =
      some (after (takenAfterLapse ++ [.lockTakes 1])) := by decide
  have hlater : Reached (· = after (takenAfterLapse ++ [.lockTakes 1])) step anyStep
      (after (takenAfterLapse ++ [.lockTakes 1, .heartbeat 5 1 0, .tick 10])) :=
    Reached.run_any [.heartbeat 5 1 0, .tick 10] (.start rfl) (by decide)
  exact (locks_are_safe hreached).ended (.lockTakes 1) _ ⟨5, 1, 0, 90⟩ (by decide) htakes
    (.inl ⟨⟨5, 2, 1, 180⟩, by decide, by decide⟩) _ hlater

end FuryBrowser.LockSafety
