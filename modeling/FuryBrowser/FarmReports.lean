import FuryBrowser.FarmSafety

/-!
# What a report is a report of

A report names a plan and a profile, and ends the session of theirs that is in flight. That is the
session whose run it is of as long as no other was started since; a run that was given up may
still report, and then ends the next one. And a run that read nothing, was not stopped and says
nothing of an error ends its session as done.
-/

namespace FuryBrowser.Farming

open GuardedRuns RowTable

variable {β : Type} {fmt : PlansFormat β} {w t : World β}

/-- A report is of the session that is in flight, if one is, and of something that was read, or
of what went wrong. -/
def Belongs (w : World β) (label : Op × Wrote β) : Prop :=
  match label.1 with
  | .report farm profile begun last =>
    (∀ track, trackOf w.list farm profile = some track → ∀ i s,
      firstWhere Session.inFlight track.sessions = some (i, s) →
        track.lastDay = begun.day ∧ i = begun.index) ∧
      (1 ≤ last.done ∨ last.stopped = true ∨ last.error.isSome)
  | _ => True

/-- Some run of a day reported that it had read a site. -/
def ReadOn (log : List Record) (farm profile : String) (day : Option ℤ) : Prop :=
  ∃ index sites, 1 ≤ sites ∧ ⟨farm, profile, .reported day index sites⟩ ∈ log

/-- A day was counted only if some run of it did. -/
def CountedRead (log : List Record) : Prop :=
  ∀ rec ∈ log, ∀ day, rec.act = .counted day → ReadOn log rec.farm rec.profile day

/-- If a session of the day that is open is done, some run of the day did. -/
def DoneRead (log : List Record) (farm profile : String) (track : Track) : Prop :=
  track.day.isSome → (∃ s ∈ track.sessions, s.isDone = true) → ReadOn log farm profile track.day

section Days

variable {log more : List Record} {farm profile : String} {track new : Track} {s : Session}

theorem ReadOn.append {day : Option ℤ} (h : ReadOn log farm profile day) :
    ReadOn (log ++ more) farm profile day := by
  obtain ⟨index, sites, hsites, hin⟩ := h
  exact ⟨index, sites, hsites, List.mem_append_left _ hin⟩

theorem DoneRead.append (h : DoneRead log farm profile track) :
    DoneRead (log ++ more) farm profile track := fun hday hdone => (h hday hdone).append

/-- A track in which no other session is done. -/
theorem DoneRead.congr (h : DoneRead log farm profile track) (hday : new.day = track.day)
    (hdone : ∀ s ∈ new.sessions, s.isDone = true → s ∈ track.sessions) :
    DoneRead log farm profile new := by
  intro hopen ⟨s, hs, hsdone⟩
  rw [hday] at hopen ⊢
  exact h hopen ⟨s, hdone s hs hsdone, hsdone⟩

theorem Session.not_isDone_of_ended_none (h : s.ended = none) : s.isDone = false := by
  simp [isDone, h]

/-- A session that ends otherwise is not done. -/
theorem mem_finish {i : ℕ} {o : Outcome} (h : s ∈ (track.finish i o).sessions)
    (hdone : s.isDone = true) (ho : ∀ sites cookies, o ≠ .done sites cookies) :
    s ∈ track.sessions := by
  rcases mem_modify h with hin | ⟨s', -, rfl⟩
  · exact hin
  · cases o with
    | done sites cookies => exact absurd rfl (ho sites cookies)
    | failed e => cases hdone
    | skipped e => cases hdone

/-- A session that starts is not done. -/
theorem DoneRead.begin {i nowMs : ℕ} (h : DoneRead log farm profile track)
    (hs : firstWhere Session.waiting track.sessions = some (i, s)) :
    DoneRead log farm profile (track.begin i nowMs) := by
  obtain ⟨hat, hwait⟩ := firstWhere_some hs
  have hend : s.ended = none := Option.isNone_iff_eq_none.mp (Bool.and_eq_true_iff.mp hwait).2
  refine h.congr rfl fun u hu hdone => ?_
  rcases mem_modify hu with hu | ⟨u', hu', rfl⟩
  · exact hu
  · rw [hat] at hu'
    cases hu'
    simp [Session.isDone, hend] at hdone

/-- What a visit starts or puts off is not done. -/
theorem doneRead_startDue {p : Pass} {t : Target} {room : ℕ} {rng : Rng}
    (h : DoneRead log farm profile track) :
    DoneRead log farm profile (startDue p t track room rng).track := by
  unfold startDue
  cases hs : firstWhere Session.waiting track.sessions with
  | none => exact h
  | some found =>
    obtain ⟨i, s⟩ := found
    obtain ⟨hat, hwait⟩ := firstWhere_some hs
    have hend : s.ended = none := Option.isNone_iff_eq_none.mp (Bool.and_eq_true_iff.mp hwait).2
    dsimp only
    split
    · exact h
    · split
      · refine h.congr rfl fun u hu hdone => ?_
        rcases List.mem_or_eq_of_mem_set hu with hu | rfl
        · exact hu
        · exfalso
          unfold Session.isDone at hdone
          split at hdone
          · rename_i hput
            split at hput
            · cases hput
            · rw [hend] at hput
              cases hput
          · cases hdone
      · split
        · exact h
        · exact h.begin hs

/-- A pass leaves it so, and counts a day only if some run of it read something. -/
theorem doneRead_visit {p : Pass} {spec : Spec} {t : Target} {room : ℕ} {rng : Rng} {v : Visit}
    (h : DoneRead log farm profile track) (hv : visit p spec t track room rng = some v) :
    DoneRead log farm profile v.track ∧
      ∀ act ∈ v.acts, ∀ day, act = .counted day → ReadOn log farm profile day := by
  constructor
  · obtain ⟨-, rfl⟩ | ⟨-, ⟨i, s, -, rfl⟩ | ⟨-, first, more, hpair, hrest⟩⟩ := visit_cases hv
    · exact h
    · unfold expire
      split
      · exact h.congr rfl fun u hu hdone => mem_finish hu hdone nofun
      · exact h
    · have hfirst : DoneRead log farm profile first := by
        split at hpair
        · cases hpair
          exact fun hopen => by cases hopen
        · cases hpair
          exact h
      obtain ⟨-, rfl⟩ | ⟨-, next, planning, rng', hplan, rfl⟩ := hrest
      · exact hfirst
      · refine doneRead_startDue ?_
        rcases planNext_cases hplan with ⟨-, rfl, -⟩ | ⟨day, -, -, -, hwait⟩
        · exact hfirst
        · intro _ ⟨s, hs, hdone⟩
          rw [Session.not_isDone_of_ended_none (hwait s hs).2.2] at hdone
          cases hdone
  · intro act hact day heq
    subst heq
    obtain ⟨heq, hopen, hdone⟩ | heq | ⟨_, heq⟩ | ⟨_, heq, -⟩ := mem_visit hv hact
    · cases heq
      exact h hopen hdone
    · cases heq
    · cases heq
    · cases heq

/-- A report that belongs to the session in flight leaves it so. -/
theorem DoneRead.report {begun : Begun} {last : Progress} {spec : Spec}
    (h : DoneRead log farm profile track) (hsound : Sound spec track)
    (hreport : track.report last = some new)
    (hown : ∀ i s, firstWhere Session.inFlight track.sessions = some (i, s) →
      track.lastDay = begun.day ∧ i = begun.index)
    (hsaid : 1 ≤ last.done ∨ last.stopped = true ∨ last.error.isSome) :
    DoneRead (log ++ [⟨farm, profile, .reported begun.day begun.index last.done⟩]) farm profile
      new := by
  obtain ⟨⟨i, s⟩, hs, rfl⟩ := Option.map_eq_some_iff.mp hreport
  obtain ⟨hday, -⟩ := hown i s hs
  intro hopen ⟨u, hu, hdone⟩
  rcases mem_modify hu with hin | ⟨u', -, rfl⟩
  · exact (h hopen ⟨u, hin, hdone⟩).append
  · obtain ⟨d, hd⟩ := Option.isSome_iff_exists.mp hopen
    have hlast : track.lastDay = track.day := (hsound.current d hd).trans hd.symm
    refine ⟨begun.index, last.done, ?_, List.mem_append_right _ ?_⟩
    · by_contra hnone
      have hzero : last.done = 0 := by omega
      rcases hsaid with hread | hstopped | herror
      · exact hnone hread
      · cases herr : last.error <;>
          simp [Session.isDone, Progress.outcome, hzero, hstopped, herr] at hdone
      · obtain ⟨e, he⟩ := Option.isSome_iff_exists.mp herror
        simp [Session.isDone, Progress.outcome, hzero, he] at hdone
    · have hsame : (track.finish i last.outcome).day = begun.day := hlast.symm.trans hday
      exact List.mem_singleton.mpr (by rw [← hsame])

end Days

section Runs

/-- What is so of every track of some plans is so when one of them is changed. -/
theorem TrackWise.setTrack {P : String → String → Track → Prop} {list : List Farm}
    {farm profile : String} {track : Track} (h : TrackWise P list) (htrack : P farm profile track) :
    TrackWise P (setTrack list farm profile track) := by
  intro f hf other
  rcases mem_modifyFirst hf with hin | ⟨g, hg, hid, rfl⟩
  · exact h f hin other
  · rw [decide_eq_true_eq] at hid
    by_cases heq : other = profile
    · subst heq
      rw [trackIn_put_self]
      exact hid.symm ▸ htrack
    · rw [trackIn_put_of_ne heq]
      exact h g hg other

/-- What holds of the days. -/
structure Reported (fmt : PlansFormat β) (w : World β) : Prop where
  list : TrackWise (DoneRead w.log) w.list
  disk : ∀ list, w.onDisk fmt = some list → TrackWise (DoneRead w.log) list
  /-- Of those that were counted. -/
  counted : CountedRead w.log

theorem TrackWise.append {list : List Farm} {log more : List Record}
    (h : TrackWise (DoneRead log) list) : TrackWise (DoneRead (log ++ more)) list :=
  fun f hf profile => (h f hf profile).append

/-- More is done, and a day is counted only if some run of it read something. -/
theorem Reported.moved {list : List Farm} {more : List Record} (h : Reported fmt w)
    (hlist : TrackWise (DoneRead (w.log ++ more)) list)
    (hmore : ∀ rec ∈ more, ∀ day, rec.act = .counted day →
      ReadOn w.log rec.farm rec.profile day) :
    Reported fmt { w with list := list, log := w.log ++ more } where
  list := hlist
  disk l hl := (h.disk l hl).append
  counted rec hrec day hact := by
    rcases List.mem_append.mp hrec with hrec | hrec
    · exact (h.counted rec hrec day hact).append
    · exact (hmore rec hrec day hact).append

theorem Reported.quiet {list : List Farm} (h : Reported fmt w)
    (hlist : TrackWise (DoneRead w.log) list) : Reported fmt { w with list := list } :=
  ⟨hlist, h.disk, h.counted⟩

/-- Whatever is asked of the plans leaves it so, if reports belong to the session in flight. -/
theorem reported_after {op : Op} {wrote : Wrote β} {u : World β} {saves : Bool}
    (hkept : Kept fmt w) (h : Reported fmt w) (hguard : Belongs w (op, wrote))
    (hafter : w.after fmt op = some (u, saves)) : Reported fmt u := by
  cases op with
  | create spec targets nowMs id =>
    cases hcreate : Farming.create w.list spec targets nowMs id with
    | error e =>
      simp only [World.after, hcreate] at hafter
      cases hafter
      exact h
    | ok list =>
      simp only [World.after, hcreate] at hafter
      split at hafter
      · cases hafter
      · cases hafter
        obtain ⟨-, -, urls, rfl⟩ := create_ok hcreate
        refine ⟨fun f hf profile => ?_, h.disk, h.counted⟩
        rcases List.mem_append.mp hf with hf | hf
        · exact h.list f hf profile
        · rw [List.mem_singleton.mp hf]
          exact fun hopen => by cases hopen
  | step pass rng =>
    obtain ⟨r, hr, heq⟩ := Option.map_eq_some_iff.mp hafter
    cases heq
    obtain ⟨hlist, more, hlog, hmore⟩ := stepAll_trackWise (P := DoneRead w.log)
      (A := fun rec => ∀ day, rec.act = .counted day → ReadOn w.log rec.farm rec.profile day)
      (fun _ _ _ _ _ _ hP hv => doneRead_visit hP hv) hr h.list
    rw [List.nil_append] at hlog
    rw [hlog]
    exact h.moved hlist.append hmore
  | claim farm profile nowMs openIds =>
    cases hclaim : Farming.claim w.list farm profile nowMs openIds with
    | none =>
      simp only [World.after, hclaim] at hafter
      cases hafter
      exact h
    | some taken =>
      obtain ⟨list, plan, begun⟩ := taken
      simp only [World.after, hclaim] at hafter
      cases hafter
      obtain ⟨f, hf, hid, -, track, i, s, htrack, -, hs, -, rfl, rfl⟩ :=
        claim_cases hkept.orderly hclaim
      have hheld := h.list f hf profile
      rw [((trackOf_some hkept.orderly htrack).2 f hf hid).2, hid] at hheld
      refine h.moved ((h.list.setTrack (hheld.begin hs)).append) fun rec hrec day hact => ?_
      rw [List.mem_singleton.mp hrec] at hact
      cases hact
  | report farm profile begun last =>
    simp only [World.after] at hafter
    split at hafter
    · cases hreport : Farming.report w.list farm profile last with
      | none =>
        simp only [hreport] at hafter
        cases hafter
        refine h.moved h.list.append fun rec hrec day hact => ?_
        rw [List.mem_singleton.mp hrec] at hact
        cases hact
      | some list =>
        simp only [hreport] at hafter
        cases hafter
        obtain ⟨old, htrack, hrest⟩ := Option.bind_eq_some_iff.mp hreport
        obtain ⟨new, hnew, heq⟩ := Option.bind_eq_some_iff.mp hrest
        cases heq
        obtain ⟨⟨f, hf, hid⟩, hfound⟩ := trackOf_some hkept.orderly htrack
        have hheld := h.list f hf profile
        rw [(hfound f hf hid).2, hid] at hheld
        have hsound := (hkept.orderly.well f hf).tended.soundIn profile
        rw [(hfound f hf hid).2] at hsound
        have hdone := hheld.report hsound hnew (hguard.1 old htrack) hguard.2
        refine h.moved (TrackWise.setTrack h.list.append hdone) fun rec hrec day hact => ?_
        rw [List.mem_singleton.mp hrec] at hact
        cases hact
    · cases hafter
  | fail farm profile error =>
    cases hfail : Farming.fail w.list farm profile error with
    | none =>
      simp only [World.after, hfail] at hafter
      cases hafter
      exact h
    | some list =>
      simp only [World.after, hfail] at hafter
      cases hafter
      obtain ⟨old, htrack, heq⟩ := Option.bind_eq_some_iff.mp hfail
      cases heq
      obtain ⟨⟨f, hf, hid⟩, hfound⟩ := trackOf_some hkept.orderly htrack
      have hheld := h.list f hf profile
      rw [(hfound f hf hid).2, hid] at hheld
      refine h.quiet (h.list.setTrack ?_)
      unfold Track.fail
      cases firstWhere Session.inFlight old.sessions with
      | none => exact hheld.congr rfl fun u hu _ => hu
      | some found => exact hheld.congr rfl fun u hu hdone => mem_finish hu hdone fun _ _ h => by cases h
  | pause id paused =>
    cases hafter
    refine h.quiet fun f hf profile => ?_
    rcases mem_modifyFirst hf with hin | ⟨g, hg, -, rfl⟩
    · exact h.list f hin profile
    · exact h.list g hg profile
  | delete id =>
    cases hafter
    exact h.quiet fun f hf => h.list f (List.mem_filter.mp hf).1
  | stageApplied farm profile =>
    cases hafter
    refine h.quiet ?_
    unfold Farming.stageApplied
    cases htrack : trackOf w.list farm profile with
    | none => exact h.list
    | some old =>
      obtain ⟨⟨f, hf, hid⟩, hfound⟩ := trackOf_some hkept.orderly htrack
      have hheld := h.list f hf profile
      rw [(hfound f hf hid).2, hid] at hheld
      exact h.list.setTrack (hheld.congr rfl fun u hu _ => hu)
  | load readable =>
    cases hafter
    refine ⟨?_, h.disk, h.counted⟩
    intro f hf profile
    obtain ⟨g, hg, rfl⟩ := List.mem_map.mp hf
    have hfound : DoneRead w.log g.id profile (trackIn g.tracks profile) := by
      rcases World.found_cases fmt w readable with hd | hnil
      · exact h.disk _ hd g hg profile
      · rw [hnil] at hg
        cases hg
    rw [trackIn_interrupt]
    refine hfound.congr rfl fun u hu hdone => ?_
    obtain ⟨s, hs, rfl⟩ := List.mem_map.mp hu
    unfold Session.interrupt at hdone ⊢
    split at hdone
    · cases hdone
    · rename_i hfly
      rw [if_neg hfly]
      exact hs

end Runs

section Outcomes

variable {list list' : List Farm} {farm profile other who : String} {old new : Track}

/-- A session of a profile in a plan. -/
def sessionAt (list : List Farm) (farm profile : String) (i : ℕ) : Option Session :=
  (trackOf list farm profile).bind fun track => track.sessions[i]?

/-- From the plans to the plans later a report ended the session that it is of, if that was in
flight, and changed no other. -/
structure OwnOutcome (list list' : List Farm) (farm profile : String) (begun : Begun)
    (last : Progress) : Prop where
  own : ∀ track s, trackOf list farm profile = some track →
    track.sessions[begun.index]? = some s →
    sessionAt list' farm profile begun.index =
      some (if track.lastDay = begun.day ∧ s.inFlight = true then
        { s with ended := some last.outcome } else s)
  others : ∀ farm' profile' i, ¬(farm' = farm ∧ profile' = profile ∧ i = begun.index) →
    sessionAt list' farm' profile' i = sessionAt list farm' profile' i

/-- Which plan has an id does not change with what is in it. -/
theorem find?_modifyFirst (change : Farm → Farm) (hid : ∀ f, (change f).id = f.id) :
    (modifyFirst (fun f => f.id = farm) change list).find? (fun f => f.id = other) =
      (list.find? fun f => f.id = other).map fun f => if other = farm then change f else f := by
  induction list with
  | nil => rfl
  | cons f rest ih =>
    by_cases hf : f.id = farm
    · by_cases ho : f.id = other
      · simp [modifyFirst, hf, hid, ← ho]
      · have hne : other ≠ farm := fun h => ho (hf.trans h.symm)
        have hne' : ¬farm = other := fun h => hne h.symm
        simp [modifyFirst, hf, hid, hne, hne']
    · by_cases ho : f.id = other
      · have hne : other ≠ farm := fun h => hf (ho.trans h)
        simp [modifyFirst, hne, ho]
      · simpa [modifyFirst, hf, ho] using ih

/-- The track that is changed is the one that is changed. -/
theorem trackOf_setTrack (h : trackOf list farm profile = some old) :
    trackOf (setTrack list farm profile new) other who =
      if other = farm ∧ who = profile then some new else trackOf list other who := by
  obtain ⟨f, hfind, -⟩ := Option.bind_eq_some_iff.mp h
  unfold trackOf setTrack
  rw [find?_modifyFirst (fun f => { f with tracks := put Prod.fst (profile, new) f.tracks })
    fun _ => rfl]
  by_cases ho : other = farm
  · subst ho
    rw [hfind]
    by_cases hw : who = profile
    · subst hw
      have hput : lookup Prod.fst (put Prod.fst (who, new) f.tracks) who = some (who, new) :=
        lookup_put_self
      simp [Farm.track, hput]
    · have hput : lookup Prod.fst (put Prod.fst (profile, new) f.tracks) who =
          lookup Prod.fst f.tracks who := lookup_put_of_ne hw
      simp [Farm.track, hput, hw]
  · simp [ho]

/-- A report that belongs to the session in flight ends that one and no other. -/
theorem report_own {begun : Begun} {last : Progress}
    (hown : ∀ track, trackOf list farm profile = some track → ∀ i s,
      firstWhere Session.inFlight track.sessions = some (i, s) →
        track.lastDay = begun.day ∧ i = begun.index) :
    OwnOutcome list ((report list farm profile last).getD list) farm profile begun last := by
  cases htrack : trackOf list farm profile with
  | none =>
    simp only [report, htrack, bind, Option.bind, Option.getD_none]
    refine ⟨fun track s h => ?_, fun _ _ _ _ => rfl⟩
    rw [htrack] at h
    cases h
  | some old =>
    cases hs : firstWhere Session.inFlight old.sessions with
    | none =>
      have hnone : report list farm profile last = none := by
        simp [report, htrack, Track.report, hs]
      rw [hnone]
      refine ⟨fun track s h hat => ?_, fun _ _ _ _ => rfl⟩
      obtain rfl := Option.some.inj (htrack.symm.trans h)
      have hidle := firstWhere_none hs s (List.mem_of_getElem? hat)
      simp [sessionAt, htrack, hat, hidle]
    | some found =>
      obtain ⟨i, s⟩ := found
      obtain ⟨hday, rfl⟩ := hown old htrack i s hs
      obtain ⟨hat, hfly⟩ := firstWhere_some hs
      obtain ⟨new, hnew⟩ : ∃ new, old.report last = some new := by simp [Track.report, hs]
      have hsessions : new.sessions = (old.finish begun.index last.outcome).sessions := by
        rw [Track.report, hs] at hnew
        cases hnew
        rfl
      have hsome : report list farm profile last = some (setTrack list farm profile new) := by
        simp [report, htrack, hnew]
      rw [hsome]
      refine ⟨fun track s' h hat' => ?_, fun farm' profile' j hne => ?_⟩
      · obtain rfl := Option.some.inj (htrack.symm.trans h)
        obtain rfl := Option.some.inj (hat.symm.trans hat')
        simp [sessionAt, trackOf_setTrack htrack, hsessions, Track.finish, hat, hday, hfly]
      · simp only [sessionAt, Option.getD_some, trackOf_setTrack htrack]
        split
        · rename_i hsame
          obtain ⟨rfl, rfl⟩ := hsame
          have hij : begun.index ≠ j := fun heq => hne ⟨rfl, rfl, heq.symm⟩
          simp [htrack, hsessions, Track.finish, hij]
        · rfl

end Outcomes

section Results

/-- Nothing was reported of a new agent, and nothing was counted. -/
theorem reported_new : Reported fmt (World.new fmt) where
  list := nofun
  disk l hl := by simp [World.onDisk, World.new] at hl
  counted := nofun

variable [DecidableEq β]

theorem reported_step : Preserved (World.step fmt) Belongs
    (fun w => Kept fmt w ∧ Reported fmt w) := by
  rintro w label t ⟨hkept, h⟩ hguard hstep
  refine ⟨kept_step hkept trivial hstep, ?_⟩
  obtain ⟨u, saves, hafter, ht⟩ := World.step_cases hstep
  have hu := reported_after hkept h hguard hafter
  rcases ht with rfl | rfl
  · exact hu
  · refine ⟨?_, fun l hl => ?_, ?_⟩
    · rw [World.save_log, World.save_list]
      exact hu.list
    · have hcases : (u.save fmt label.2).onDisk fmt = u.onDisk fmt ∨
          (u.save fmt label.2).onDisk fmt = some u.list := World.save_onDisk
      rw [World.save_log]
      rcases hcases with heq | heq
      · exact hu.disk l (heq ▸ hl)
      · exact Option.some.inj (heq.symm.trans hl) ▸ hu.list
    · rw [World.save_log]
      exact hu.counted

/-- In every run in which a report belongs to the session in flight and says of something that
was read or of what went wrong, a day was counted only if some run of it read something, and
such a report ends the session that it is of, if that is in flight, and no other. -/
theorem reports_belong (hr : Reached (World.IsNew fmt) (World.step fmt) Belongs w) :
    CountedRead w.log ∧ ∀ farm profile begun last wrote t,
      Belongs w (.report farm profile begun last, wrote) →
      World.step fmt w (.report farm profile begun last, wrote) = some t →
      OwnOutcome w.list t.list farm profile begun last := by
  have hinv := hr.invariant (fun w => Kept fmt w ∧ Reported fmt w)
    (by rintro w rfl; exact ⟨kept_new, reported_new⟩) reported_step
  refine ⟨hinv.2.counted, fun farm profile begun last wrote t hguard hstep => ?_⟩
  have hlist : t.list = (report w.list farm profile last).getD w.list := by
    obtain ⟨u, saves, hafter, ht⟩ := World.step_cases hstep
    have hu : t.list = u.list := by
      rcases ht with rfl | rfl
      · rfl
      · exact World.save_list
    rw [hu]
    simp only [World.after] at hafter
    split at hafter
    · cases hreport : report w.list farm profile last <;> simp only [hreport] at hafter <;>
        cases hafter <;> rfl
    · cases hafter
  rw [hlist]
  exact report_own hguard.1

/-- The session of the first day, which is started at noon. -/
def firstRun : Begun := ⟨some 0, 0, 36000000, 79200000, 43200000, false⟩

/-- It reports. -/
abbrev firstReport (last : Progress) : Op × Wrote (List Farm ⊕ String) :=
  (.report "f" "p" firstRun last, .done)

/-- A day is planned, and its session is started at noon. -/
def startedAtNoon (days : ℕ) : List (Op × Wrote (List Farm ⊕ String)) :=
  begunWith days "local" ++ [(.step (passAt 9 []) [], .done), (.step (passAt 12 []) [], .done)]

instance (w : World β) (farm profile : String) (begun : Begun) (last : Progress)
    (wrote : Wrote β) : Decidable (Belongs w (.report farm profile begun last, wrote)) :=
  decidable_of_iff
    (((trackOf w.list farm profile).all fun track =>
        (firstWhere Session.inFlight track.sessions).all fun found =>
          track.lastDay = begun.day && found.1 = begun.index) = true ∧
      (1 ≤ last.done ∨ last.stopped = true ∨ last.error.isSome))
    (by simp [Belongs, Option.all_eq_true])

/-- The session reports, and then its day is counted: it had read a site. -/
theorem reports_belong_firstRun : ∃ w t, run (World.step plainPlans) (World.new plainPlans)
    (startedAtNoon 1) = some w ∧
      World.step plainPlans w (firstReport ⟨1, 40, false, none⟩) = some t ∧
      CountedRead t.log ∧ OwnOutcome w.list t.list "f" "p" firstRun ⟨1, 40, false, none⟩ := by
  have hseen : (run (World.step plainPlans) (World.new plainPlans) (startedAtNoon 1)).any
      (fun w => decide (Belongs w (firstReport ⟨1, 40, false, none⟩)) &&
        (World.step plainPlans w (firstReport ⟨1, 40, false, none⟩)).isSome) = true := by
    decide
  obtain ⟨w, hw, hseen⟩ := (Option.any_eq_true _ _).mp hseen
  obtain ⟨hbelongs, hsome⟩ := Bool.and_eq_true_iff.mp hseen
  obtain ⟨t, ht⟩ := Option.isSome_iff_exists.mp hsome
  have hallowed : Allowed (World.step plainPlans) Belongs (World.new plainPlans)
      (startedAtNoon 1) :=
    ⟨trivial, fun _ _ => ⟨trivial, fun _ _ => ⟨trivial, fun _ _ => ⟨trivial, fun _ _ => trivial⟩⟩⟩⟩
  have hreached : Reached (World.IsNew plainPlans) (World.step plainPlans) Belongs w :=
    Reached.run _ (.start rfl) hallowed hw
  have hown := (reports_belong hreached).2 _ _ _ _ _ t (of_decide_eq_true hbelongs) ht
  have hnext := (reports_belong (hreached.next (of_decide_eq_true hbelongs) ht)).1
  exact ⟨w, t, hw, ht, hnext, hown⟩

/-- The session of the first day is given up after three hours, the next day is planned, and its
session is started. -/
def startedNextDay : List (Op × Wrote (List Farm ⊕ String)) :=
  startedAtNoon 2 ++ [(.step (passAt 15 []) [], .done), (.step (passAt 15 []) [], .done),
    (.step (passAt 36 []) [], .done)]

/-- The session of the next day, and how it ended. -/
def nextSession (ended : Option Outcome) : Session :=
  ⟨122400000, ["https://a.example/"], some 129600000, ended⟩

/-- The first run reports only then, and the session of the next day is done. And a session of
which the run has read nothing is done too, and its day is counted. -/
theorem reports_stray :
    (∃ w t, run (World.step plainPlans) (World.new plainPlans) startedNextDay = some w ∧
      World.step plainPlans w (firstReport ⟨1, 40, false, none⟩) = some t ∧
      sessionAt w.list "f" "p" 0 = some (nextSession none) ∧
      sessionAt t.list "f" "p" 0 = some (nextSession (some (.done 1 40))) ∧
      ¬OwnOutcome w.list t.list "f" "p" firstRun ⟨1, 40, false, none⟩) ∧
    ∃ w, run (World.step plainPlans) (World.new plainPlans) (startedAtNoon 1 ++
        [firstReport ⟨0, 0, false, none⟩, (.step (passAt 13 []) [], .done)]) = some w ∧
      ¬CountedRead w.log := by
  constructor
  · have hseen : (run (World.step plainPlans) (World.new plainPlans) startedNextDay).any
        (fun w => (World.step plainPlans w (firstReport ⟨1, 40, false, none⟩)).any fun t =>
          sessionAt w.list "f" "p" 0 = some (nextSession none) ∧
          sessionAt t.list "f" "p" 0 = some (nextSession (some (.done 1 40))) ∧
          (trackOf w.list "f" "p").map Track.lastDay = some (some 1)) = true := by decide
    obtain ⟨w, hw, hseen⟩ := (Option.any_eq_true _ _).mp hseen
    obtain ⟨t, ht, hseen⟩ := (Option.any_eq_true _ _).mp hseen
    obtain ⟨hbefore, hafter, hday⟩ := of_decide_eq_true hseen
    refine ⟨w, t, hw, ht, hbefore, hafter, fun hown => ?_⟩
    obtain ⟨track, htrack, hlast⟩ := Option.map_eq_some_iff.mp hday
    have hat : track.sessions[firstRun.index]? = some (nextSession none) := by
      rw [sessionAt, htrack] at hbefore
      exact hbefore
    have hsame := hown.own track _ htrack hat
    rw [hlast, if_neg (by decide)] at hsame
    exact absurd (hafter.symm.trans hsame) (by decide)
  · have hseen : (run (World.step plainPlans) (World.new plainPlans) (startedAtNoon 1 ++
        [firstReport ⟨0, 0, false, none⟩, (.step (passAt 13 []) [], .done)])).map World.log =
        some [⟨"f", "p", .planned 0⟩, ⟨"f", "p", .started firstRun⟩,
          ⟨"f", "p", .reported (some 0) 0 0⟩, ⟨"f", "p", .counted (some 0)⟩,
          ⟨"f", "p", .ready⟩] := by decide
    obtain ⟨w, hw, hlog⟩ := Option.map_eq_some_iff.mp hseen
    refine ⟨w, hw, fun hread => ?_⟩
    have hin : ⟨"f", "p", .counted (some 0)⟩ ∈ w.log := by simp [hlog]
    obtain ⟨index, sites, hsites, hin⟩ := hread _ hin _ rfl
    rw [hlog] at hin
    simp only [List.mem_cons, Record.mk.injEq, true_and, reduceCtorEq, false_or,
      Act.reported.injEq, List.not_mem_nil, or_false] at hin
    omega

end Results

end FuryBrowser.Farming
