import FuryBrowser.TeamLaunch

/-!
# How far restrictions reach

The restrictions that the server computes go to the shell, and no further: the agent starts
every browser as it would for somebody who may take everything along, and leaves every
directory. What it starts is what the server asked for exactly when whoever opens the profile
has both `export_cookies` and `reveal_secrets`.
-/

namespace FuryBrowser.RestrictionsReach

open GuardedRuns RowTable Permissions TeamLaunch

/-- A browser was started under the restrictions of a permission set. -/
structure Hardened (r : Running) (perms : PermSet) : Prop where
  restrictions : r.spec.restrictions = forPerms perms
  /-- Without `export_cookies` no debugging port is opened or handed out. -/
  noPort : perms.has .exportCookies = false → r.spec.debugPort = none ∧ r.endpoint = none
  /-- And developer tools and data export are locked. -/
  locked : perms.has .exportCookies = false → "--fury-lock-devtools" ∈ buildArgs r.spec ∧
    "--fury-lock-data-export" ∈ buildArgs r.spec

/-- The restrictions have reached every browser, and every copy that was to be wiped is gone. -/
structure Restricted (a : Agent) : Prop where
  /-- The browsers of team profiles. -/
  running : ∀ r ∈ a.running, ∀ perms ∈ r.perms, Hardened r perms
  /-- Their directories, after they have been closed. -/
  copies : ∀ c ∈ a.copies, (forPerms c.perms).wipeOnExit = false

/-- Nothing is restricted for whoever holds both. -/
def Full (perms : PermSet) : Prop :=
  perms.has .exportCookies = true ∧ perms.has .revealSecrets = true

instance (perms : PermSet) : Decidable (Full perms) := inferInstanceAs (Decidable (_ ∧ _))

/-- Whoever starts a browser on a team profile holds both. -/
def Guard (a : Agent) : Label → Prop
  | .opens _ perms _ _ => Full perms
  | .warms profile perms _ => (a.entry profile).isSome = true ∨ Full perms
  | .calls q _ => ∀ granted ∈ q.inline, Full granted.1
  | _ => True

instance : DecidableRel Guard := fun a l => by
  cases l <;> dsimp only [Guard] <;> infer_instance

/-- Nothing is open, and nothing is left of a team profile. -/
def Start (a : Agent) : Prop := a.running = [] ∧ a.copies = []

section Launches

variable {a a' : Agent} {m : Machine} {q : LaunchParams} {perms : PermSet}

/-- Which permission sets have nothing restricted. -/
theorem full_iff : Full perms ↔ Agent.restrictions = forPerms perms := by
  have hnothing : Agent.restrictions = ⟨false, false, false, false, false⟩ := by decide
  rw [hnothing]
  unfold Full forPerms
  constructor
  · rintro ⟨hexport, hreveal⟩
    rw [hexport, hreveal]
    rfl
  · intro h
    simp only [LaunchRestrictions.mk.injEq, Bool.false_eq, Bool.not_eq_eq_eq_not,
      Bool.not_false] at h
    exact ⟨h.1, h.2.2.2.2⟩

/-- What holds in every state of a guarded run. -/
structure Inv (a : Agent) : Prop where
  /-- Every browser runs without restrictions, for somebody who has none. -/
  running : ∀ r ∈ a.running, r.spec.restrictions = Agent.restrictions ∧
    ∀ perms ∈ r.perms, Full perms
  /-- And so it was with every directory. -/
  copies : ∀ c ∈ a.copies, Full c.perms

theorem Inv.restricted (h : Inv a) : Restricted a := by
  refine ⟨fun r hr perms hp => ?_, fun c hc => ?_⟩
  · obtain ⟨hrestrictions, hfull⟩ := h.running r hr
    obtain ⟨hexport, _⟩ := hfull perms hp
    refine ⟨hrestrictions.trans (full_iff.mp (hfull perms hp)), fun hno => ?_, fun hno => ?_⟩
    · exact absurd hno (by simp [hexport])
    · exact absurd hno (by simp [hexport])
  · simp [forPerms, (h.copies c hc).1]

/-- Closing leaves a directory as it was used. -/
theorem Inv.stop (h : Inv a) (profile : ℕ) : Inv (a.stop profile) := by
  unfold Agent.stop
  cases hentry : a.entry profile with
  | none => exact h
  | some r =>
    obtain ⟨hr, _⟩ := lookup_some hentry
    refine ⟨fun r' hr' => h.running r' (mem_deleteWhere.mp hr').1, fun c hc => ?_⟩
    cases hperms : r.perms with
    | none =>
      simp only [hperms] at hc
      exact h.copies c hc
    | some perms =>
      simp only [hperms] at hc
      rcases mem_put.mp hc with rfl | ⟨hin, _⟩
      · exact (h.running r hr).2 perms hperms
      · exact h.copies c hin

/-- A launch stops what is left of the profile, and starts a browser. -/
theorem launch_some (h : a.launch m q = some a') : ∃ spec,
    a'.running = Agent.browser m q spec :: (a.stop q.profile).running ∧
      ∀ c ∈ a'.copies, c ∈ (a.stop q.profile).copies := by
  unfold Agent.launch at h
  obtain ⟨_, h⟩ := Option.ite_none_left_eq_some.mp h
  obtain ⟨spec, _, h⟩ := Option.bind_eq_some_iff.mp h
  obtain ⟨_, h⟩ := Option.ite_none_right_eq_some.mp h
  cases h
  exact ⟨spec, rfl, fun c hc => (mem_deleteWhere.mp hc).1⟩

/-- The browser it starts is restricted exactly if it is to have no restrictions. -/
theorem launch_restricted (hinv : Inv a) (h : a.launch m q = some a') :
    ((∀ granted ∈ q.inline, Full granted.1) → Inv a') ∧
      (Restricted a' → ∀ granted ∈ q.inline, Full granted.1) := by
  obtain ⟨spec, hrunning, hcopies⟩ := launch_some h
  have hstop := hinv.stop q.profile
  constructor
  · intro hfull
    refine ⟨fun r hr => ?_, fun c hc => hstop.copies c (hcopies c hc)⟩
    rw [hrunning] at hr
    rcases List.mem_cons.mp hr with rfl | hin
    · refine ⟨rfl, fun perms hp => ?_⟩
      obtain ⟨granted, hgranted, rfl⟩ := Option.map_eq_some_iff.mp hp
      exact hfull granted hgranted
    · exact hstop.running r hin
  · intro hrestricted granted hgranted
    have hmem : Agent.browser m q spec ∈ a'.running := hrunning ▸ List.mem_cons_self
    exact full_iff.mpr (hrestricted.running _ hmem granted.1
      (Option.map_eq_some_iff.mpr ⟨granted, hgranted, rfl⟩)).restrictions

/-- The shell asks the agent for what it was granted. -/
theorem takeAndLaunch_some {profile : ℕ} {force cdp : Bool} {m : Meets}
    (h : takeAndLaunch a profile perms force cdp m = some a') :
    ∃ spec, a.launch m.machine ⟨profile, some (perms, spec), cdp⟩ = some a' := by
  obtain ⟨grant, _, h⟩ := Option.bind_eq_some_iff.mp h
  obtain ⟨_, h⟩ := Option.ite_none_left_eq_some.mp h
  obtain ⟨_, h⟩ := Option.ite_none_right_eq_some.mp h
  exact ⟨grant.spec, h⟩

theorem takeAndLaunch_restricted {profile : ℕ} {force cdp : Bool} {m : Meets} (hinv : Inv a)
    (h : takeAndLaunch a profile perms force cdp m = some a') :
    (Full perms → Inv a') ∧ (Restricted a' → Full perms) := by
  obtain ⟨spec, h⟩ := takeAndLaunch_some h
  obtain ⟨hto, hfrom⟩ := launch_restricted hinv h
  refine ⟨fun hfull => hto fun granted hgranted => ?_, fun hrestricted => ?_⟩
  · cases hgranted
    exact hfull
  · exact hfrom hrestricted (perms, spec) rfl

end Launches

/-- One step keeps restrictions exactly as the guard says. -/
theorem step_restricted {a a' : Agent} {l : Label} (hinv : Inv a) (hs : step a l = some a') :
    (Guard a l → Inv a') ∧ (Restricted a' → Guard a l) := by
  cases l with
  | opens profile perms force m => exact takeAndLaunch_restricted hinv hs
  | warms profile perms m =>
    simp only [step, warmStart] at hs
    split at hs
    next hopen =>
      cases hs
      exact ⟨fun _ => hinv, fun _ => .inl hopen⟩
    next hclosed =>
      obtain ⟨hto, hfrom⟩ := takeAndLaunch_restricted hinv hs
      exact ⟨fun hg => hto (hg.resolve_left hclosed), fun h => .inr (hfrom h)⟩
  | drives profile m =>
    refine ⟨fun _ => ?_, fun _ => trivial⟩
    simp only [step, Agent.ensureOpen] at hs
    split at hs
    · cases hs
      exact hinv
    · exact (launch_restricted hinv hs).1 fun _ hgranted => by cases hgranted
  | exchanges profile m =>
    refine ⟨fun _ => ?_, fun _ => trivial⟩
    simp only [step, Agent.exchangesCookies] at hs
    split at hs
    · cases hs
      exact hinv
    · obtain ⟨b, hb, rfl⟩ := Option.map_eq_some_iff.mp hs
      exact ((launch_restricted hinv hb).1 fun _ hgranted => by cases hgranted).stop profile
  | calls q m => exact launch_restricted hinv hs
  | exits profile =>
    cases hs
    refine ⟨fun _ => ⟨fun r hr => ?_, hinv.copies⟩, fun _ => trivial⟩
    rcases updateWhere_cases hr with ⟨hin, _⟩ | ⟨old, hold, _, rfl⟩
    · exact hinv.running r hin
    · exact hinv.running old hold
  | stops profile =>
    cases hs
    exact ⟨fun _ => hinv.stop profile, fun _ => trivial⟩

theorem inv_start {a : Agent} (h : Start a) : Inv a := by
  obtain ⟨hrunning, hcopies⟩ := h
  refine ⟨fun r hr => ?_, fun c hc => ?_⟩
  · rw [hrunning] at hr
    cases hr
  · rw [hcopies] at hc
    cases hc

/-- As long as whoever opens a team profile holds `export_cookies` and `reveal_secrets`, every
browser is restricted as the server asked; and any way of opening one keeps it so exactly when
whoever opens it does. -/
theorem restrictions_reach {a : Agent} (hr : Reached Start step Guard a) :
    Restricted a ∧ ∀ l a', step a l = some a' → (Restricted a' ↔ Guard a l) := by
  have hinv : Inv a := hr.invariant Inv (fun _ => inv_start) fun _ _ _ hi hg hs =>
    (step_restricted hi hs).1 hg
  refine ⟨hinv.restricted, fun l a' hs => ?_⟩
  obtain ⟨hto, hfrom⟩ := step_restricted hinv hs
  exact ⟨hfrom, fun hg => (hto hg).restricted⟩

/-- An agent with nothing open. -/
def idle : Agent := ⟨[], [], []⟩

/-- A launch that meets nothing in its way. -/
def ready : Meets := ⟨true, some ⟨[]⟩, true, ⟨true, [], some 9222⟩⟩

/-- What an operator has, and what somebody has who does everything with profiles. -/
def operator : PermSet := PermSet.fromIter [.view, .launch]

/-- Somebody who may take everything along opens a profile, closes it, and warms it. -/
def opened : List Label :=
  [.opens 20 fullProfileWork false ready, .stops 20, .warms 20 fullProfileWork ready]

theorem restrictions_reach_full : ∃ a, run step idle opened = some a ∧
    a.running.map (fun r => (r.spec.restrictions, r.endpoint)) =
      [(forPerms fullProfileWork, some 9222)] ∧
    (Restricted a ∧ ∀ l a', step a l = some a' → (Restricted a' ↔ Guard a l)) := by
  have hrun : ((run step idle opened).map fun a =>
      a.running.map fun r => (r.spec.restrictions, r.endpoint)) =
        some [(forPerms fullProfileWork, some 9222)] := by decide
  obtain ⟨a, h, hrunning⟩ := Option.map_eq_some_iff.mp hrun
  exact ⟨a, h, hrunning,
    restrictions_reach ((Reached.start ⟨rfl, rfl⟩).run opened (by decide) h)⟩

/-- An operator opens a profile, and nothing is restricted either. -/
theorem operator_unrestricted :
    ¬ ∀ a, Reached Start step anyStep a → Restricted a := by
  intro hall
  have hrun : ((run step idle [.opens 20 operator false ready]).map fun a =>
      a.running.map fun r => (r.perms, r.spec.restrictions)) =
        some [(some operator, forPerms fullProfileWork)] := by decide
  obtain ⟨a, h, hrunning⟩ := Option.map_eq_some_iff.mp hrun
  have hrestricted := hall a ((Reached.start ⟨rfl, rfl⟩).run_any _ h)
  obtain ⟨r, hr, heq⟩ := List.mem_map.mp (hrunning ▸ List.mem_singleton_self _)
  obtain ⟨hperms, hunrestricted⟩ := Prod.mk.inj heq
  have hasked := (hrestricted.running r hr operator hperms).restrictions
  rw [hunrestricted] at hasked
  exact absurd hasked (by decide)

end FuryBrowser.RestrictionsReach
