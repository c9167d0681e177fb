import FuryBrowser.AgentRuns

/-!
# The ways out of the agent

The agent ends itself when it is asked to, or when it becomes idle after it was
asked. What both ask is the map of running browsers. A stop has left the map
before it waits, packs and uploads, and a launch enters it last, so neither is
seen.

In runs in which an exit is decided only while no launch and no stop is in
flight, and none starts between the decision and the exit, the process never
ends under one.
-/

namespace FuryBrowser.AgentExit

open GuardedRuns RowTable AgentRuns

/-- The process has not ended, or no launch and no stop was in flight. -/
def Finished (w : World) : Prop :=
  w.exited = true → ∀ o ∈ w.ops, o.task.inFlight = false

/-- Whether a step decides on an exit. -/
def decides (w : World) : Label → Bool
  | .shutdown true => w.idle
  | .shutdown false => w.running = []
  | .reaperDecides => w.exitWhenIdle && w.idle
  | _ => false

/-- An exit is decided only with nothing in flight, and nothing starts after it. -/
def Unhurried (w : World) (a : Label) : Prop :=
  (decides w a = true → ∀ o ∈ w.ops, o.task.inFlight = false) ∧
    (w.exitScheduled = true → ∀ t ∈ begins w a, t.2.inFlight = false)

instance : DecidableRel Unhurried := fun w a => by
  unfold Unhurried
  infer_instance

/-- What unhurried runs keep. -/
structure Inv (w : World) : Prop where
  /-- Once an exit is decided nothing is in flight. -/
  quiet : w.exitScheduled = true → ∀ o ∈ w.ops, o.task.inFlight = false
  /-- The process ends only after the decision. -/
  decided : w.exited = true → w.exitScheduled = true

/-- The operations after a request: the same, or one more. -/
theorem freeStep_ops {w w' : World} {a : Label} (hs : freeStep w a = some w') :
    w'.ops = w.ops ∨ ∃ t ∈ begins w a, ∃ reaper,
      w'.ops = ⟨w.nextOp, t.1, t.2, reaper⟩ :: w.ops := by
  have hstop : ∀ (v : World) (profile : ℕ) (reaper : Bool),
      (v.stop profile reaper).ops = v.ops ∨ ∃ e ∈ v.entry profile,
        (v.stop profile reaper).ops =
          ⟨v.nextOp, profile, .closing e.child false, reaper⟩ :: v.ops := by
    intro v profile reaper
    unfold World.stop
    cases he : v.entry profile with
    | none => exact .inl rfl
    | some e => exact .inr ⟨e, rfl, rfl⟩
  cases a with
  | launch profile requested =>
    simp only [freeStep] at hs
    cases he : w.entry profile with
    | none =>
      rw [he] at hs
      cases hs
      exact .inr ⟨(profile, .preparing), by simp [begins, he], false, by cases requested <;> rfl⟩
    | some e =>
      rw [he] at hs
      cases hd : w.isAlive e.child with
      | true =>
        simp only [hd, if_true, Option.some.injEq] at hs
        exact .inl (by subst hs; cases requested <;> rfl)
      | false =>
        simp only [hd, Bool.false_eq_true, if_false, Option.some.injEq] at hs
        subst hs
        exact .inr ⟨(profile, .tidying), by simp [begins, he, hd], false,
          by cases requested <;> rfl⟩
  | stop profile =>
    cases hs
    rcases hstop w profile false with hsame | ⟨e, he, hops⟩
    · exact .inl hsame
    · exact .inr ⟨_, Option.mem_map_of_mem _ he, false, hops⟩
  | dirWork profile =>
    simp only [freeStep] at hs
    cases he : w.entry profile with
    | none =>
      rw [he] at hs
      cases hs
      exact .inr ⟨(profile, .dirWork), by simp [begins, he], false, rfl⟩
    | some e =>
      rw [he] at hs
      cases hs
      exact .inl rfl
  | reaperStops =>
    simp only [freeStep] at hs
    split at hs
    · cases hs
    · split at hs
      · next profile rest hlist =>
        cases hs
        rcases hstop { w with reaping := some rest } profile true with hsame | ⟨e, he, hops⟩
        · exact .inl hsame
        · refine .inr ⟨(profile, .closing e.child false), ?_, true, hops⟩
          simp only [begins, hlist]
          exact Option.mem_map_of_mem _ he
      · cases hs
  | shutdown whenIdle =>
    cases whenIdle <;> simp only [freeStep] at hs <;> split at hs <;> cases hs <;> exact .inl rfl
  | _ =>
    simp only [freeStep] at hs
    repeat' split at hs
    all_goals first | cases hs; done | cases hs; exact .inl rfl

/-- An exit is scheduled by a decision, and happens when it was scheduled. -/
theorem freeStep_exit {w w' : World} {a : Label} (hs : freeStep w a = some w') :
    (w'.exitScheduled = true → w.exitScheduled = true ∨ decides w a = true) ∧
      (w'.exited = true → w.exited = true ∨ w.exitScheduled = true) ∧
      (w.exitScheduled = true → w'.exitScheduled = true) := by
  have hstop : ∀ (v : World) (profile : ℕ) (reaper : Bool),
      (v.stop profile reaper).exitScheduled = v.exitScheduled ∧
        (v.stop profile reaper).exited = v.exited := by
    intro v profile reaper
    unfold World.stop
    split <;> exact ⟨rfl, rfl⟩
  -- Most steps leave both flags alone.
  have hsame : w'.exitScheduled = w.exitScheduled ∧ w'.exited = w.exited →
      (w'.exitScheduled = true → w.exitScheduled = true ∨ decides w a = true) ∧
        (w'.exited = true → w.exited = true ∨ w.exitScheduled = true) ∧
        (w.exitScheduled = true → w'.exitScheduled = true) := by
    rintro ⟨hscheduled, hexited⟩
    rw [hscheduled, hexited]
    exact ⟨.inl, .inl, id⟩
  cases a with
  | launch profile requested =>
    refine hsame ?_
    simp only [freeStep] at hs
    repeat' split at hs
    all_goals
      cases hs
      exact ⟨rfl, rfl⟩
  | stop profile =>
    cases hs
    exact hsame (hstop w profile false)
  | reaperStops =>
    refine hsame ?_
    simp only [freeStep] at hs
    repeat' split at hs
    · cases hs
    · cases hs
      exact hstop _ _ true
    · cases hs
  | reaperDecides =>
    simp only [freeStep] at hs
    repeat' split at hs
    · cases hs
    · cases hs
      refine ⟨fun h => ?_, .inl, fun h => ?_⟩
      · exact Bool.or_eq_true_iff.mp h
      · exact Bool.or_eq_true_iff.mpr (.inl h)
    · cases hs
  | shutdown whenIdle =>
    cases whenIdle with
    | true =>
      simp only [freeStep] at hs
      split at hs
      · next hidle =>
        cases hs
        exact ⟨fun _ => .inr hidle, .inl, fun _ => rfl⟩
      · cases hs
        exact hsame ⟨rfl, rfl⟩
    | false =>
      simp only [freeStep] at hs
      split at hs
      · next hempty =>
        cases hs
        exact ⟨fun _ => .inr (decide_eq_true hempty), .inl, fun _ => rfl⟩
      · cases hs
        exact hsame ⟨rfl, rfl⟩
  | exit =>
    simp only [freeStep] at hs
    split at hs
    · next hscheduled =>
      cases hs
      exact ⟨.inl, fun _ => .inr hscheduled, id⟩
    · cases hs
  | _ =>
    refine hsame ?_
    simp only [freeStep] at hs
    repeat' split at hs
    all_goals
      cases hs
      try exact ⟨rfl, rfl⟩

/-- An operation in flight decides nothing about the process. -/
theorem opStep_exit {w w' : World} {o : Op} {a : Label} (hs : opStep w o a = some w') :
    w'.exitScheduled = w.exitScheduled ∧ w'.exited = w.exited := by
  have hdone : ∀ (v : World) (id : ℕ) (thenLaunch : Bool),
      (v.stopDone id thenLaunch).exitScheduled = v.exitScheduled ∧
        (v.stopDone id thenLaunch).exited = v.exited := by
    intro v id thenLaunch
    cases thenLaunch <;> exact ⟨rfl, rfl⟩
  cases a with
  | closed id hasServer =>
    simp only [opStep] at hs
    split at hs
    · cases hs
      cases hasServer
      · exact hdone _ _ _
      · exact ⟨rfl, rfl⟩
    · cases hs
  | _ =>
    simp only [opStep] at hs
    repeat' split at hs
    all_goals
      cases hs
      try exact ⟨rfl, rfl⟩
      try exact hdone _ _ _

/-- Only directory requests go on once nothing else is in flight. -/
theorem opStep_quiet {w w' : World} {o : Op} {a : Label} (hquiet : o.task.inFlight = false)
    (hs : opStep w o a = some w') : w'.ops = (w.finish o.id).ops := by
  have htask : o.task = .dirWork := by
    cases ht : o.task <;> first | rfl | (rw [ht] at hquiet; cases hquiet)
  cases a <;> simp only [opStep, htask, Option.some.injEq, reduceCtorEq] at hs
  exact hs ▸ rfl

/-- No request both starts an operation and decides on an exit. -/
theorem begins_of_decides {w : World} {a : Label} (hd : decides w a = true) :
    begins w a = none := by
  cases a <;> first | rfl | cases hd

theorem inv_step : Preserved step Unhurried Inv := by
  intro w a w' h hg hs
  unfold step at hs
  split at hs
  · cases hs
  · next hexited =>
    split at hs
    · obtain ⟨o, ho, hs⟩ := Option.bind_eq_some_iff.mp hs
      obtain ⟨hscheduled, hsame⟩ := opStep_exit hs
      refine ⟨fun hx p hp => ?_, fun hx => ?_⟩
      · have hw : w.exitScheduled = true := hscheduled ▸ hx
        rw [opStep_quiet (h.quiet hw o (lookup_some ho).1) hs] at hp
        exact h.quiet hw p (mem_deleteWhere.mp hp).1
      · exact absurd (hsame ▸ hx) hexited
    · obtain ⟨hscheduled, hends, hkeeps⟩ := freeStep_exit hs
      refine ⟨fun hx p hp => ?_, fun hx => ?_⟩
      · rcases freeStep_ops hs with hops | ⟨t, ht, reaper, hops⟩
        · rw [hops] at hp
          rcases hscheduled hx with hw | hd
          · exact h.quiet hw p hp
          · exact hg.1 hd p hp
        · rw [hops] at hp
          have hw : w.exitScheduled = true := by
            rcases hscheduled hx with hw | hd
            · exact hw
            · rw [begins_of_decides hd] at ht
              cases ht
          rcases List.mem_cons.mp hp with rfl | hp
          · exact hg.2 hw t ht
          · exact h.quiet hw p hp
      · rcases hends hx with hw | hw
        · exact absurd hw hexited
        · exact hkeeps hw

theorem inv_fresh : Inv fresh := ⟨nofun, nofun⟩

/-- However requests, disconnects and the reaper interleave, an unhurried agent
does not end under a launch or a stop. -/
theorem exits_with_nothing_in_flight {w : World} (hr : Reached init step Unhurried w) :
    Finished w := by
  have h := hr.invariant Inv (fun _ hi => hi ▸ inv_fresh) inv_step
  exact fun hexited => h.quiet (h.decided hexited)

/-- A launch, a stop that uploads, and then the end. -/
def wholeSession : List Label :=
  [.launch 1 true, .fetched 0 true, .unpacked 0, .spawned 0, .registered 0, .shutdown true,
    .stop 1, .closed 1 true, .packed 1, .pushed 1, .reaperLists, .reaperDecides, .exit]

theorem exits_with_nothing_in_flight_session :
    Finished { fresh with
      exitWhenIdle := true, exitScheduled := true, exited := true, nextChild := 1,
      nextOp := 2 } := by
  have hfresh : Reached init step Unhurried fresh := .start rfl
  exact exits_with_nothing_in_flight
    (hfresh.run wholeSession (by decide) (by decide))

/-- The agent has ended under a launch that is unpacking. -/
def endedUnderLaunch : World :=
  { fresh with
    ops := [⟨0, 1, .unpacking, false⟩]
    exitScheduled := true
    exited := true
    nextOp := 1 }

/-- The agent has ended under a stop that is packing. -/
def endedUnderStop : World :=
  { fresh with
    ops := [⟨1, 1, .packing false, false⟩]
    exitScheduled := true
    exited := true
    nextChild := 1
    nextOp := 2 }

/-- Asked to stop, the agent looks at the map alone: it ends under a launch that
is not in it yet, and under a stop that is in it no more. -/
theorem shutdown_ends_work_in_flight :
    Reached init step anyStep endedUnderLaunch ∧ ¬ Finished endedUnderLaunch ∧
      Reached init step anyStep endedUnderStop ∧ ¬ Finished endedUnderStop := by
  have hfresh : Reached init step anyStep fresh := .start rfl
  refine ⟨?_, fun h => ?_, ?_, fun h => ?_⟩
  · exact hfresh.run_any [.launch 1 true, .fetched 0 true, .shutdown true, .exit]
      (by decide)
  · exact absurd (h rfl ⟨0, 1, .unpacking, false⟩ (by decide)) (by decide)
  · exact hfresh.run_any [.launch 1 true, .fetched 0 false, .spawned 0, .registered 0, .stop 1,
      .closed 1 true, .shutdown false, .exit] (by decide)
  · exact absurd (h rfl ⟨1, 1, .packing false, false⟩ (by decide)) (by decide)

end FuryBrowser.AgentExit
