import FuryBrowser.FarmSafety

/-!
# The hours of a session

A pass closes a day whose hours are over before it starts anything, so what it starts is started
within the hours. What the shell takes is only looked at by when it is due: a session that is
taken after the hours and before the next pass is started all the same.
-/

namespace FuryBrowser.Farming

open GuardedRuns RowTable

variable {β : Type} {fmt : PlansFormat β} {w t : World β}

/-- A session was started when it was due, before the hours of its day ended. -/
def Begun.timely (b : Begun) : Prop := b.atMs ≤ b.startedMs ∧ b.startedMs < b.windowEndMs

/-- So was every session. -/
def Timely (log : List Record) : Prop := ∀ rec ∈ log, ∀ b, rec.act = .started b → b.timely

/-- A session that is due is taken before the hours of its day end. -/
def TakenInHours (w : World β) (label : Op × Wrote β) : Prop :=
  match label.1 with
  | .claim farm profile nowMs openIds =>
    (∃ d ∈ due w.list nowMs openIds, d.farmId = farm ∧ d.profileId = profile) →
      ∀ track, trackOf w.list farm profile = some track → nowMs < track.windowEndMs
  | _ => True

instance (w : World β) (label : Op × Wrote β) : Decidable (TakenInHours w label) :=
  match label with
  | (.claim farm profile nowMs openIds, _) =>
    decidable_of_iff
      ((∃ d ∈ due w.list nowMs openIds, d.farmId = farm ∧ d.profileId = profile) →
        (trackOf w.list farm profile).all (fun track => nowMs < track.windowEndMs) = true)
      (by simp [TakenInHours, Option.all_eq_true])
  | (.create _ _ _ _, _) | (.step _ _, _) | (.report _ _ _ _, _) | (.fail _ _ _, _) |
    (.pause _ _, _) | (.delete _, _) | (.stageApplied _ _, _) | (.load _, _) => .isTrue trivial

theorem stepAll_timely {p : Pass} {list : List Farm} {starts : List Start} {log : List Record}
    {rng : Rng} {done : Passed} (h : stepAll p list starts log rng = some done) :
    ∃ more, done.log = log ++ more ∧ Timely more := by
  refine (stepAll_trackWise (P := fun _ _ _ => True)
    (A := fun rec => ∀ b, rec.act = .started b → b.timely) ?_ h fun _ _ _ => trivial).2
  intro farm t track room rng v _ hv
  refine ⟨trivial, fun act hact b heq => ?_⟩
  obtain rfl := heq
  obtain ⟨hact, -⟩ | hact | ⟨_, hact⟩ | ⟨b', hact, htimely⟩ := mem_visit hv hact
  · cases hact
  · cases hact
  · cases hact
  · cases hact
    exact htimely

theorem claim_of_due {list : List Farm} {farm profile : String} {nowMs : ℕ}
    {openIds : List String} (ho : Orderly list)
    (h : ∃ d ∈ due list nowMs openIds, d.farmId = farm ∧ d.profileId = profile) :
    (claim list farm profile nowMs openIds).isSome := by
  obtain ⟨d, hd, rfl, rfl⟩ := h
  have hany : (due list nowMs openIds).any
      (fun e => e.farmId = d.farmId && e.profileId = d.profileId) = true :=
    List.any_eq_true.mpr ⟨d, hd, by simp⟩
  obtain ⟨g, hg, hdue⟩ := List.mem_flatMap.mp hd
  obtain ⟨hid, -, -, track, htrack, hisDue⟩ := mem_dueIn hdue
  have hin := (List.mem_filter.mp hg).1
  have hfind : list.find? (fun f => f.id = d.farmId) = some g :=
    hid ▸ lookup_of_mem ho.ids hin
  have hwaits := (Bool.and_eq_true_iff.mp hisDue).1
  rw [find?_eq_firstWhere] at hwaits
  obtain ⟨s, hs, -⟩ := (Option.any_eq_true _ _).mp hwaits
  obtain ⟨⟨i, s'⟩, hfirst, -⟩ := Option.map_eq_some_iff.mp hs
  simp [claim, guard, hany, hfind, htrack, hfirst]

/-- Whatever is not a pass and not a claim starts nothing. -/
theorem after_timely {op : Op} {u : World β} {saves : Bool} (hkept : Kept fmt w)
    (htimely : Timely w.log) (hafter : w.after fmt op = some (u, saves)) (wrote : Wrote β) :
    Timely u.log ↔ TakenInHours w (op, wrote) := by
  have hsame : u.log = w.log → Timely u.log := fun heq => heq ▸ htimely
  cases op with
  | create spec targets nowMs id =>
    refine iff_of_true (hsame ?_) trivial
    cases hcreate : Farming.create w.list spec targets nowMs id with
    | error e =>
      simp only [World.after, hcreate] at hafter
      cases hafter
      rfl
    | ok list =>
      simp only [World.after, hcreate] at hafter
      split at hafter <;> cases hafter
      rfl
  | step pass rng =>
    refine iff_of_true ?_ trivial
    obtain ⟨r, hr, heq⟩ := Option.map_eq_some_iff.mp hafter
    cases heq
    obtain ⟨more, hlog, hmore⟩ := stepAll_timely hr
    dsimp only
    rw [hlog]
    intro rec hrec
    rcases List.mem_append.mp hrec with hrec | hrec
    · exact htimely rec hrec
    · exact hmore rec hrec
  | claim farm profile nowMs openIds =>
    cases hclaim : Farming.claim w.list farm profile nowMs openIds with
    | none =>
      simp only [World.after, hclaim] at hafter
      cases hafter
      refine iff_of_true htimely fun hdue => ?_
      have hsome := claim_of_due hkept.orderly hdue
      rw [hclaim] at hsome
      cases hsome
    | some taken =>
      obtain ⟨list, plan, begun⟩ := taken
      simp only [World.after, hclaim] at hafter
      cases hafter
      obtain ⟨f, hf, hid, -, track, i, s, htrack, -, -, hat, -, rfl⟩ :=
        claim_cases hkept.orderly hclaim
      constructor
      · intro hall _ track' htrack'
        obtain rfl := Option.some.inj (htrack.symm.trans htrack')
        exact (hall _ (List.mem_append_right _ (List.mem_singleton.mpr rfl)) _ rfl).2
      · intro hguard rec hrec b hb
        rcases List.mem_append.mp hrec with hrec | hrec
        · exact htimely rec hrec b hb
        · rw [List.mem_singleton.mp hrec] at hb
          cases hb
          exact ⟨hat, hguard (due_of_claim hclaim) track htrack⟩
  | report farm profile begun last =>
    refine iff_of_true ?_ trivial
    simp only [World.after] at hafter
    split at hafter
    · have hlog : u.log =
          w.log ++ [⟨farm, profile, .reported begun.day begun.index last.done⟩] := by
        cases hreport : Farming.report w.list farm profile last <;>
          simp only [hreport] at hafter <;> cases hafter <;> rfl
      rw [hlog]
      intro rec hrec b hb
      rcases List.mem_append.mp hrec with hrec | hrec
      · exact htimely rec hrec b hb
      · rw [List.mem_singleton.mp hrec] at hb
        cases hb
    · cases hafter
  | fail farm profile error =>
    refine iff_of_true (hsame ?_) trivial
    cases hfail : Farming.fail w.list farm profile error <;>
      simp only [World.after, hfail] at hafter <;> cases hafter <;> rfl
  | pause id paused =>
    cases hafter
    exact iff_of_true htimely trivial
  | delete id =>
    cases hafter
    exact iff_of_true htimely trivial
  | stageApplied farm profile =>
    cases hafter
    exact iff_of_true htimely trivial
  | load readable =>
    cases hafter
    exact iff_of_true htimely trivial

variable [DecidableEq β]

/-- A step leaves every start timely exactly if what is due is taken within the hours. -/
theorem step_timely {label : Op × Wrote β} (hkept : Kept fmt w) (htimely : Timely w.log)
    (hstep : World.step fmt w label = some t) : Timely t.log ↔ TakenInHours w label := by
  obtain ⟨u, saves, hafter, ht⟩ := World.step_cases hstep
  have hlog : t.log = u.log := by
    rcases ht with rfl | rfl
    · rfl
    · exact World.save_log
  rw [hlog]
  exact after_timely hkept htimely hafter label.2

/-- In every run in which the shell takes what is due within the hours of its day, every session
is started when it is due and within the hours of its day. And a step from there keeps it so
only if what the shell takes is taken within the hours. -/
theorem started_in_hours (hr : Reached (World.IsNew fmt) (World.step fmt) TakenInHours w) :
    Timely w.log ∧ ∀ label t, World.step fmt w label = some t →
      (Timely t.log ↔ TakenInHours w label) := by
  have hinv : Kept fmt w ∧ Timely w.log := by
    refine hr.invariant (fun w => Kept fmt w ∧ Timely w.log) ?_ ?_
    · rintro w rfl
      exact ⟨kept_new, nofun⟩
    · rintro w label t ⟨hkept, htimely⟩ hguard hstep
      exact ⟨kept_step hkept trivial hstep, (step_timely hkept htimely hstep).mpr hguard⟩
  exact ⟨hinv.2, fun label t hstep => step_timely hinv.1 hinv.2 hstep⟩

/-- A team session is planned, and the shell takes it at noon. -/
def atNoon : List (Op × Wrote (List Farm ⊕ String)) :=
  begunWith 1 "team" ++ [(.step (passAt 9 []) [], .done),
    (.claim "f" "p" (12 * 60 * 60 * 1000) [], .done)]

theorem started_in_hours_atNoon : ∃ w, run (World.step plainPlans) (World.new plainPlans)
    atNoon = some w ∧
      ⟨"f", "p", .started ⟨some 0, 0, 36000000, 79200000, 43200000, false⟩⟩ ∈ w.log ∧
      Timely w.log := by
  have hseen : (run (World.step plainPlans) (World.new plainPlans) atNoon).map World.log =
      some [⟨"f", "p", .planned 0⟩,
        ⟨"f", "p", .started ⟨some 0, 0, 36000000, 79200000, 43200000, false⟩⟩] := by
    decide
  have hallowed : Allowed (World.step plainPlans) TakenInHours (World.new plainPlans) atNoon := by
    decide
  obtain ⟨w, hw, hlog⟩ := Option.map_eq_some_iff.mp hseen
  have hreached : Reached (World.IsNew plainPlans) (World.step plainPlans) TakenInHours w :=
    Reached.run _ (.start rfl) hallowed hw
  refine ⟨w, hw, ?_, (started_in_hours hreached).1⟩
  rw [hlog]
  exact List.mem_cons_of_mem _ List.mem_cons_self

/-- A team session is planned for the first day, the plan is paused until its hours are over, and
the shell takes the session before the next pass. -/
def afterHours : List (Op × Wrote (List Farm ⊕ String)) :=
  begunWith 1 "team" ++ [(.step (passAt 9 []) [], .done), (.pause "f" true, .done),
    (.pause "f" false, .done), (.claim "f" "p" (23 * 60 * 60 * 1000) [], .done)]

/-- It is started an hour after the hours of its day. -/
theorem started_after_hours : ∃ w, run (World.step plainPlans) (World.new plainPlans)
    afterHours = some w ∧
      ⟨"f", "p", .started ⟨some 0, 0, 36000000, 79200000, 82800000, false⟩⟩ ∈ w.log ∧
      ¬Timely w.log := by
  have hseen : (run (World.step plainPlans) (World.new plainPlans) afterHours).map World.log =
      some [⟨"f", "p", .planned 0⟩,
        ⟨"f", "p", .started ⟨some 0, 0, 36000000, 79200000, 82800000, false⟩⟩] := by
    decide
  obtain ⟨w, hw, hlog⟩ := Option.map_eq_some_iff.mp hseen
  have hin : ⟨"f", "p", .started ⟨some 0, 0, 36000000, 79200000, 82800000, false⟩⟩ ∈ w.log := by
    rw [hlog]
    exact List.mem_cons_of_mem _ List.mem_cons_self
  refine ⟨w, hw, hin, fun hall => ?_⟩
  exact absurd (hall _ hin _ rfl).2 (by decide)

end FuryBrowser.Farming
