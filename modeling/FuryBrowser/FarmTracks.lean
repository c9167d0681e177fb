import FuryBrowser.FarmPlans

/-!
# What holds of a profile's way through a plan

Some of it is said of the track alone and holds whatever was lost before. The rest is said of
the track beside everything that was done: the days are planned one after the other and each
is counted once at most, a session is started once, and the stage is asked for when the last
day is done. A pass keeps both, and the number of sessions that may still be started beside
those that are in flight.
-/

namespace FuryBrowser.Farming

/-- How many sessions of a track are in flight. -/
def Track.flights (track : Track) : ℕ := track.sessions.countP Session.inFlight

/-- What holds of a track, whatever came before. -/
structure Sound (spec : Spec) (track : Track) : Prop where
  /-- No more days are done than were asked for. -/
  bound : track.daysDone ≤ spec.days
  /-- When they are all done, none is open. -/
  done : spec.days ≤ track.daysDone → track.day = none
  /-- The day that is open is the last one that was planned. -/
  current : ∀ d, track.day = some d → track.lastDay = some d
  /-- When none is open, every session is over. -/
  shut : track.day = none → ∀ s ∈ track.sessions, s.ended.isSome
  /-- One session is in flight at most. -/
  single : track.flights ≤ 1

/-- What a track says of its history. -/
structure Course where
  /-- The days that are done. -/
  daysDone : ℕ
  /-- The last day that was planned. -/
  lastDay : Option ℤ
  day : Option ℤ
  /-- Of each session, whether it was started. -/
  begun : List Bool
  deriving DecidableEq, Repr

/-- Of a track. -/
def Track.course (track : Track) : Course :=
  ⟨track.daysDone, track.lastDay, track.day, track.sessions.map fun s => s.startedMs.isSome⟩

section History

/-- A day that was planned. -/
def Act.plannedDay : Act → Option ℤ
  | .planned day => some day
  | _ => none

/-- A day that was counted. -/
def Act.countedDay : Act → Option (Option ℤ)
  | .counted day => some day
  | _ => none

/-- A session that was started. -/
def Act.begun : Act → Option Begun
  | .started b => some b
  | _ => none

variable (acts : List Act)

/-- The days that were planned, in order. -/
def plannedDays : List ℤ := acts.filterMap Act.plannedDay

/-- The days that were counted. -/
def countedDays : List (Option ℤ) := acts.filterMap Act.countedDay

/-- The sessions that were started. -/
def startedSessions : List Begun := acts.filterMap Act.begun

/-- Which session of which day one is. -/
def Begun.place (b : Begun) : Option ℤ × ℕ := (b.day, b.index)

/-- How often the stage was asked for. -/
def readyAsked : ℕ := acts.count .ready

variable {acts} {more : List Act}

@[simp] theorem plannedDays_append :
    plannedDays (acts ++ more) = plannedDays acts ++ plannedDays more := List.filterMap_append

@[simp] theorem countedDays_append :
    countedDays (acts ++ more) = countedDays acts ++ countedDays more := List.filterMap_append

@[simp] theorem startedSessions_append :
    startedSessions (acts ++ more) = startedSessions acts ++ startedSessions more :=
  List.filterMap_append

@[simp] theorem readyAsked_append :
    readyAsked (acts ++ more) = readyAsked acts + readyAsked more := List.count_append

end History

/-- What is asked for when so many days are done. -/
def asked (spec : Spec) (daysDone : ℕ) : ℕ :=
  if decide (spec.days ≤ daysDone) && spec.setStage then 1 else 0

/-- What holds of a track beside everything that was done. -/
structure Fits (spec : Spec) (acts : List Act) (c : Course) : Prop where
  /-- The days were planned in their order. -/
  inOrder : (plannedDays acts).Pairwise (· < ·)
  /-- The last of them is the track's. -/
  last : c.lastDay = (plannedDays acts).getLast?
  /-- A day was counted once at most. -/
  once : (countedDays acts).Nodup
  ofPlanned : ∀ day ∈ countedDays acts, ∃ d ∈ plannedDays acts, day = some d
  /-- The day that is open was not. -/
  notYet : ∀ d, c.day = some d → some d ∉ countedDays acts
  /-- The days that are done are those that were counted. -/
  total : (countedDays acts).length = c.daysDone
  /-- A session was started once. -/
  startedOnce : ((startedSessions acts).map Begun.place).Nodup
  /-- It was one of a day that had been planned. -/
  ofDay : ∀ b ∈ startedSessions acts, ∃ d ∈ plannedDays acts, b.day = some d
  /-- One of the last day is marked as started. -/
  marked : ∀ b ∈ startedSessions acts, b.day = c.lastDay → c.begun[b.index]? = some true
  /-- The profile was not open. -/
  free : ∀ b ∈ startedSessions acts, b.wasOpen = false
  /-- The stage was asked for when the last day was done. -/
  stage : readyAsked acts = asked spec c.daysDone

theorem Fits.new {spec : Spec} (h : 1 ≤ spec.days) : Fits spec [] Track.new.course where
  inOrder := .nil
  last := rfl
  once := .nil
  ofPlanned := nofun
  notYet := nofun
  total := rfl
  startedOnce := .nil
  ofDay := nofun
  marked := nofun
  free := nofun
  stage := by
    have hdays : ¬spec.days ≤ 0 := by omega
    simp [asked, hdays, Track.course, Track.new, readyAsked]

theorem Sound.new {spec : Spec} : Sound spec .new where
  bound := Nat.zero_le _
  done _ := rfl
  current := nofun
  shut _ := nofun
  single := Nat.zero_le _

section Sessions

variable {s : Session}

theorem Session.not_inFlight_of_waiting (h : s.waiting = true) : s.inFlight = false := by
  simp only [waiting, inFlight, Bool.and_eq_true, Option.isNone_iff_eq_none] at h ⊢
  simp [h.1]

/-- A session that does not wait and is not in flight is over. -/
theorem Session.ended_of (hwait : s.waiting = false) (hfly : s.inFlight = false) :
    s.ended.isSome := by
  cases hend : s.ended with
  | some o => rfl
  | none => cases hst : s.startedMs <;> simp [waiting, inFlight, hend, hst] at hwait hfly

@[simp] theorem Session.skip_startedMs : s.skip.startedMs = s.startedMs := by
  unfold Session.skip
  split <;> rfl

/-- At the end of the day what waits is put aside, and then everything is over. -/
theorem Session.skip_ended (h : s.inFlight = false) : s.skip.ended.isSome := by
  cases hw : s.waiting with
  | true => simp [Session.skip, hw]
  | false =>
    have hskip : s.skip = s := by simp [Session.skip, hw]
    rw [hskip]
    exact ended_of hw h

theorem Session.not_inFlight_of_ended (h : s.ended.isSome) : s.inFlight = false := by
  obtain ⟨o, ho⟩ := Option.isSome_iff_exists.mp h
  simp [inFlight, ho]

@[simp] theorem Session.interrupt_startedMs : s.interrupt.startedMs = s.startedMs := by
  unfold Session.interrupt
  split <;> rfl

/-- Nothing is in flight when the agent starts. -/
theorem Session.not_inFlight_interrupt : s.interrupt.inFlight = false := by
  cases hf : s.inFlight <;> simp [interrupt, hf]
  simp [inFlight]

end Sessions

section Ends

variable {spec : Spec} {track : Track} {i : ℕ} {o : Outcome} {s : Session} {acts : List Act}

theorem course_finish : (track.finish i o).course = track.course := by
  simp only [Track.course, Track.finish, Course.mk.injEq, true_and]
  refine List.ext_getElem? fun j => ?_
  simp only [List.getElem?_map, List.getElem?_modify]
  cases track.sessions[j]? with
  | none => simp
  | some s => split <;> rfl

theorem flights_finish (h : track.sessions[i]? = some s) (hs : s.inFlight = true) :
    (track.finish i o).flights + 1 = track.flights := by
  have hcount := countP_modify (p := Session.inFlight) (f := fun s => { s with ended := some o }) h
  rw [hs] at hcount
  simpa [Track.flights, Track.finish, Session.inFlight] using hcount

/-- A session that ends leaves a track as it has to be. -/
theorem Sound.finish (hsound : Sound spec track) (h : track.sessions[i]? = some s)
    (hs : s.inFlight = true) : Sound spec (track.finish i o) where
  bound := hsound.bound
  done := hsound.done
  current := hsound.current
  shut hday := by
    intro t ht
    rcases mem_modify ht with ht | ⟨_, _, rfl⟩
    · exact hsound.shut hday t ht
    · rfl
  single := by
    have hcount := flights_finish (o := o) h hs
    have hone := hsound.single
    omega

theorem course_interrupt : track.interrupt.course = track.course := by
  simp [Track.course, Track.interrupt, Function.comp_def]

theorem flights_interrupt : track.interrupt.flights = 0 := by
  refine List.countP_eq_zero.mpr fun s hs => ?_
  obtain ⟨t, -, rfl⟩ := List.mem_map.mp hs
  simp [Session.not_inFlight_interrupt]

theorem Sound.interrupt (hsound : Sound spec track) : Sound spec track.interrupt where
  bound := hsound.bound
  done := hsound.done
  current := hsound.current
  shut hday := by
    intro t ht
    obtain ⟨s, hs, rfl⟩ := List.mem_map.mp ht
    have hended := hsound.shut hday s hs
    simpa [Session.interrupt, Session.not_inFlight_of_ended hended] using hended
  single := by simp [flights_interrupt]

end Ends

section Steps

variable {spec : Spec} {acts : List Act} {c : Course} {d : ℤ}

/-- No planned day comes after the last one. -/
theorem le_last {days : List ℤ} (h : days.Pairwise (· < ·)) {last : ℤ}
    (hlast : days.getLast? = some last) {day : ℤ} (hday : day ∈ days) : day ≤ last := by
  obtain ⟨before, rfl⟩ := List.getLast?_eq_some_iff.mp hlast
  rcases List.mem_append.mp hday with hin | hin
  · exact le_of_lt ((List.pairwise_append.mp h).2.2 day hin last List.mem_cons_self)
  · rw [List.mem_singleton.mp hin]

/-- A day after the last one was not planned yet. -/
theorem Fits.lt_of_planned (h : Fits spec acts c) (hlater : ∀ last ∈ c.lastDay, last < d) :
    ∀ day ∈ plannedDays acts, day < d := by
  intro day hday
  cases hlast : (plannedDays acts).getLast? with
  | none =>
    rw [List.getLast?_eq_none_iff.mp hlast] at hday
    cases hday
  | some last =>
    have hle := le_last h.inOrder hlast hday
    have hlt := hlater last (by rw [h.last, hlast]; rfl)
    omega

theorem Fits.planned (h : Fits spec acts c) (hlater : ∀ last ∈ c.lastDay, last < d)
    (begun : List Bool) :
    Fits spec (acts ++ [.planned d]) ⟨c.daysDone, some d, some d, begun⟩ := by
  have hlt := h.lt_of_planned hlater
  have hdays : plannedDays (acts ++ [.planned d]) = plannedDays acts ++ [d] :=
    plannedDays_append
  have hcounted : countedDays (acts ++ [.planned d]) = countedDays acts :=
    countedDays_append.trans (List.append_nil _)
  have hstarted : startedSessions (acts ++ [.planned d]) = startedSessions acts :=
    startedSessions_append.trans (List.append_nil _)
  have hready : readyAsked (acts ++ [.planned d]) = readyAsked acts := readyAsked_append
  have hearlier : ∀ day ∈ plannedDays acts, day ∈ plannedDays (acts ++ [.planned d]) := by
    intro day hday
    rw [hdays]
    exact List.mem_append_left _ hday
  constructor
  case inOrder =>
    rw [hdays]
    refine List.pairwise_append.mpr ⟨h.inOrder, List.pairwise_singleton _ _, ?_⟩
    intro day hday next hnext
    rw [List.mem_singleton.mp hnext]
    exact hlt day hday
  case last => rw [hdays, List.getLast?_append]; rfl
  case once => rw [hcounted]; exact h.once
  case ofPlanned =>
    rw [hcounted]
    intro day hday
    obtain ⟨e, he, heq⟩ := h.ofPlanned day hday
    exact ⟨e, hearlier e he, heq⟩
  case notYet =>
    rw [hcounted]
    intro e he hin
    cases he
    obtain ⟨f, hf, heq⟩ := h.ofPlanned _ hin
    cases heq
    exact lt_irrefl d (hlt d hf)
  case total => rw [hcounted]; exact h.total
  case startedOnce => rw [hstarted]; exact h.startedOnce
  case ofDay =>
    rw [hstarted]
    intro b hb
    obtain ⟨e, he, heq⟩ := h.ofDay b hb
    exact ⟨e, hearlier e he, heq⟩
  case marked =>
    rw [hstarted]
    intro b hb hday
    obtain ⟨e, he, heq⟩ := h.ofDay b hb
    rw [hday] at heq
    cases heq
    exact absurd (hlt d he) (lt_irrefl d)
  case free => rw [hstarted]; exact h.free
  case stage => rw [hready]; exact h.stage

/-- Only these parts of a history matter. -/
theorem Fits.congr {acts' : List Act} (h : Fits spec acts c)
    (hdays : plannedDays acts' = plannedDays acts)
    (hcounted : countedDays acts' = countedDays acts)
    (hstarted : startedSessions acts' = startedSessions acts)
    (hready : readyAsked acts' = readyAsked acts) : Fits spec acts' c where
  inOrder := hdays.symm ▸ h.inOrder
  last := hdays.symm ▸ h.last
  once := hcounted.symm ▸ h.once
  ofPlanned := hcounted.symm ▸ hdays.symm ▸ h.ofPlanned
  notYet := hcounted.symm ▸ h.notYet
  total := hcounted.symm ▸ h.total
  startedOnce := hstarted.symm ▸ h.startedOnce
  ofDay := hstarted.symm ▸ hdays.symm ▸ h.ofDay
  marked := hstarted.symm ▸ h.marked
  free := hstarted.symm ▸ h.free
  stage := hready.trans h.stage

theorem Fits.reported (h : Fits spec acts c) (day : Option ℤ) (index sites : ℕ) :
    Fits spec (acts ++ [.reported day index sites]) c :=
  h.congr (plannedDays_append.trans (List.append_nil _))
    (countedDays_append.trans (List.append_nil _))
    (startedSessions_append.trans (List.append_nil _)) readyAsked_append

/-- A session of the day that is open is started. -/
theorem Fits.started (h : Fits spec acts c) (hlast : c.lastDay = some d) {b : Begun}
    (hb : b.day = c.lastDay) (hmark : c.begun[b.index]? = some false)
    (hfree : b.wasOpen = false) :
    Fits spec (acts ++ [.started b]) { c with begun := c.begun.set b.index true } := by
  have hdays : plannedDays (acts ++ [.started b]) = plannedDays acts :=
    plannedDays_append.trans (List.append_nil _)
  have hcounted : countedDays (acts ++ [.started b]) = countedDays acts :=
    countedDays_append.trans (List.append_nil _)
  have hstarted : startedSessions (acts ++ [.started b]) = startedSessions acts ++ [b] :=
    startedSessions_append
  have hready : readyAsked (acts ++ [.started b]) = readyAsked acts := readyAsked_append
  constructor
  case inOrder => rw [hdays]; exact h.inOrder
  case last => rw [hdays]; exact h.last
  case once => rw [hcounted]; exact h.once
  case ofPlanned => rw [hcounted, hdays]; exact h.ofPlanned
  case notYet => rw [hcounted]; exact h.notYet
  case total => rw [hcounted]; exact h.total
  case startedOnce =>
    rw [hstarted, List.map_append]
    refine List.nodup_append.mpr ⟨h.startedOnce, List.nodup_singleton _, ?_⟩
    rintro _ hin _ hlater rfl
    obtain ⟨b', hb', hplace⟩ := List.mem_map.mp hin
    rw [List.mem_singleton.mp hlater] at hplace
    obtain ⟨hdays', hindex⟩ := Prod.mk.injEq .. ▸ hplace
    have hold := h.marked b' hb' (hdays'.trans hb)
    rw [hindex, hmark] at hold
    cases hold
  case ofDay =>
    rw [hstarted, hdays]
    intro b' hb'
    rcases List.mem_append.mp hb' with hold | hnew
    · exact h.ofDay b' hold
    · rw [List.mem_singleton.mp hnew]
      refine ⟨d, ?_, hb.trans hlast⟩
      exact List.mem_of_getLast? (h.last.symm.trans hlast)
  case marked =>
    rw [hstarted]
    intro b' hb' hday'
    obtain ⟨hlt, -⟩ := List.getElem?_eq_some_iff.mp hmark
    rcases List.mem_append.mp hb' with hold | hnew
    · have hmark' := h.marked b' hold hday'
      by_cases hindex : b.index = b'.index
      · rw [← hindex]
        exact List.getElem?_set_self hlt
      · rw [List.getElem?_set_ne hindex]
        exact hmark'
    · rw [List.mem_singleton.mp hnew]
      exact List.getElem?_set_self hlt
  case free =>
    rw [hstarted]
    intro b' hb'
    rcases List.mem_append.mp hb' with hold | hnew
    · exact h.free b' hold
    · rw [List.mem_singleton.mp hnew]
      exact hfree
  case stage => rw [hready]; exact h.stage

/-- What is noted when a day is closed. -/
def closing (spec : Spec) (day : Option ℤ) (counts : Bool) (daysDone : ℕ) : List Act :=
  (if counts then [.counted day] else []) ++
    if decide (spec.days ≤ daysDone) && spec.setStage then [.ready] else []

theorem Fits.closed (h : Fits spec acts c) (hday : c.day = some d) (hlast : c.lastDay = some d)
    (hleft : c.daysDone < spec.days) (counts : Bool) :
    let daysDone := if counts then c.daysDone + 1 else c.daysDone
    Fits spec (acts ++ closing spec c.day counts daysDone)
      { c with daysDone := daysDone, day := none } := by
  intro daysDone
  have hdays : plannedDays (acts ++ closing spec c.day counts daysDone) = plannedDays acts := by
    rw [plannedDays_append, closing, plannedDays_append]
    cases counts <;> cases decide (spec.days ≤ daysDone) && spec.setStage <;>
      exact List.append_nil _
  have hstarted :
      startedSessions (acts ++ closing spec c.day counts daysDone) = startedSessions acts := by
    rw [startedSessions_append, closing, startedSessions_append]
    cases counts <;> cases decide (spec.days ≤ daysDone) && spec.setStage <;>
      exact List.append_nil _
  have hcounted : countedDays (acts ++ closing spec c.day counts daysDone) =
      countedDays acts ++ if counts then [c.day] else [] := by
    rw [countedDays_append, closing, countedDays_append]
    cases counts <;> cases decide (spec.days ≤ daysDone) && spec.setStage <;> rfl
  have hnone : readyAsked acts = 0 := by
    have hopen : ¬spec.days ≤ c.daysDone := by omega
    rw [h.stage]
    simp [asked, hopen]
  have hready : readyAsked (acts ++ closing spec c.day counts daysDone) =
      asked spec daysDone := by
    rw [readyAsked_append, hnone, closing, readyAsked_append, asked]
    cases counts <;> cases decide (spec.days ≤ daysDone) && spec.setStage <;> rfl
  constructor
  case inOrder => rw [hdays]; exact h.inOrder
  case last => rw [hdays]; exact h.last
  case once =>
    rw [hcounted]
    cases counts with
    | false => exact (List.append_nil _).symm ▸ h.once
    | true =>
      refine List.nodup_append.mpr ⟨h.once, List.nodup_singleton _, ?_⟩
      rintro _ hin _ hlater rfl
      rw [List.mem_singleton.mp hlater, hday] at hin
      exact h.notYet d hday hin
  case ofPlanned =>
    rw [hcounted, hdays]
    intro day hin
    rcases List.mem_append.mp hin with hold | hnew
    · exact h.ofPlanned day hold
    · cases counts with
      | false => cases hnew
      | true =>
        rw [List.mem_singleton.mp hnew]
        exact ⟨d, List.mem_of_getLast? (h.last.symm.trans hlast), hday⟩
  case notYet => exact nofun
  case total =>
    rw [hcounted, List.length_append, h.total]
    cases counts <;> rfl
  case startedOnce => rw [hstarted]; exact h.startedOnce
  case ofDay => rw [hstarted, hdays]; exact h.ofDay
  case marked => rw [hstarted]; exact h.marked
  case free => rw [hstarted]; exact h.free
  case stage => exact hready

end Steps

section Visits

variable {p : Pass} {spec : Spec} {t : Target} {track : Track} {room : ℕ} {rng : Rng}
  {acts : List Act} {i : ℕ} {s : Session} {v : Visit}

/-- What a visit keeps: the track is as it has to be, its history goes on, and a session that
is started takes one of those that may be. -/
structure Visited (spec : Spec) (track : Track) (room : ℕ) (v : Visit) : Prop where
  sound : Sound spec v.track
  fits : ∀ acts, Fits spec acts track.course → Fits spec (acts ++ v.acts) v.track.course
  balance : v.room + v.track.flights = room + track.flights
  grows : track.daysDone ≤ v.track.daysDone

theorem Visited.rest (h : Sound spec track) :
    Visited spec track room ⟨track, room, [], none, rng⟩ where
  sound := h
  fits acts hfits := (List.append_nil acts).symm ▸ hfits
  balance := rfl
  grows := Nat.le_refl _

theorem Visited.trans {u : Visit} (hu : Visited spec track room u)
    (hv : Visited spec u.track u.room v) :
    Visited spec track room { v with acts := u.acts ++ v.acts } where
  sound := hv.sound
  fits acts hfits := by
    rw [← List.append_assoc]
    exact hv.fits _ (hu.fits acts hfits)
  balance := hv.balance.trans hu.balance
  grows := Nat.le_trans hu.grows hv.grows

theorem not_inFlight (h : firstWhere Session.inFlight track.sessions = none) :
    track.flights = 0 :=
  List.countP_eq_zero.mpr fun s hs => by simp [firstWhere_none h s hs]

theorem visited_expire (h : Sound spec track)
    (hs : firstWhere Session.inFlight track.sessions = some (i, s)) :
    Visited spec track room (expire p track room rng i s) := by
  obtain ⟨hat, hfly⟩ := firstWhere_some hs
  unfold expire
  split
  · refine ⟨h.finish hat hfly, fun acts hfits => ?_, ?_, Nat.le_refl _⟩
    · rw [List.append_nil, course_finish]
      exact hfits
    · have hcount := flights_finish (o := .failed "the session never reported back") hat hfly
      dsimp only
      omega
  · exact .rest h

variable (room rng) in
/-- A day is closed when nothing of it is in flight. -/
theorem visited_close (h : Sound spec track) (hleft : track.daysDone < spec.days)
    (hfly : track.flights = 0) (hover : track.over p.nowMs = true) :
    Visited spec track room ⟨(track.close spec).1, room, (track.close spec).2, none, rng⟩ := by
  have hidle : ∀ s ∈ track.sessions, s.inFlight = false := fun s hs => by
    simpa using List.countP_eq_zero.mp hfly s hs
  obtain ⟨d, hday⟩ := Option.isSome_iff_exists.mp (Bool.and_eq_true_iff.mp hover).1
  have hshut : ∀ s ∈ track.sessions.map Session.skip, s.ended.isSome := by
    intro s hs
    obtain ⟨u, hu, rfl⟩ := List.mem_map.mp hs
    exact Session.skip_ended (hidle u hu)
  have hnone : (track.close spec).1.flights = 0 :=
    List.countP_eq_zero.mpr fun s hs => by
      simp [Session.not_inFlight_of_ended (hshut s hs)]
  refine ⟨⟨?_, fun _ => rfl, nofun, fun _ => hshut, by rw [hnone]; exact Nat.zero_le _⟩,
    ?_, ?_, ?_⟩
  · dsimp only [Track.close]
    split <;> omega
  · intro acts hfits
    have hclosed := hfits.closed hday (h.current d hday) hleft
      ((track.sessions.map Session.skip).any Session.isDone)
    simpa [Track.course, Track.close, closing, Function.comp_def] using hclosed
  · exact congrArg (room + ·) (hnone.trans hfly.symm)
  · dsimp only [Track.close]
    split <;> omega

variable (room) in
/-- The next day is planned when none is open. -/
theorem visited_planNext {next : Track} {more : List Act} (h : Sound spec track)
    (hleft : track.daysDone < spec.days) (hfly : track.flights = 0) {rng' : Rng}
    (hnext : planNext p spec t track rng = some (next, more, rng')) :
    Visited spec track room ⟨next, room, more, none, rng'⟩ ∧ next.flights = 0 ∧
      next.daysDone = track.daysDone ∧ next.day.isSome := by
  unfold planNext at hnext
  split at hnext
  · rename_i hopen
    cases hnext
    exact ⟨.rest h, hfly, rfl, hopen⟩
  · obtain ⟨planned, hplan, heq⟩ := Option.map_eq_some_iff.mp hnext
    cases heq
    obtain ⟨hlater, hwait⟩ := planDay_some hplan (Int.natCast_nonneg _)
    have hnone : planned.sessions.countP Session.inFlight = 0 :=
      List.countP_eq_zero.mpr fun s hs => by simp [Session.inFlight, hwait s hs]
    refine ⟨⟨⟨h.bound, ?_, fun _ heq => heq, nofun, ?_⟩, ?_, ?_, Nat.le_refl _⟩, hnone, rfl, rfl⟩
    · exact fun hdone => absurd hdone (Nat.not_le.mpr hleft)
    · exact Nat.le_trans (Nat.le_of_eq hnone) (Nat.zero_le _)
    · exact fun acts hfits => hfits.planned hlater _
    · exact congrArg (room + ·) (hnone.trans hfly.symm)

/-- A session is put off, or given up. -/
theorem visited_put {t' : Session} (h : Sound spec track) (hopen : track.day.isSome)
    (hleft : track.daysDone < spec.days) (hfly : track.flights = 0)
    (hat : track.sessions[i]? = some s) (hmark : t'.startedMs = s.startedMs)
    (hidle : t'.inFlight = false) :
    Visited spec track room ⟨{ track with sessions := track.sessions.set i t' }, room, [], none,
      rng⟩ := by
  have hnone : (track.sessions.set i t').countP Session.inFlight = 0 := by
    refine List.countP_eq_zero.mpr fun u hu => ?_
    rcases List.mem_or_eq_of_mem_set hu with hu | rfl
    · exact List.countP_eq_zero.mp hfly u hu
    · simp [hidle]
  refine ⟨⟨h.bound, ?_, h.current, ?_, Nat.le_trans (Nat.le_of_eq hnone) (Nat.zero_le _)⟩,
    fun acts hfits => ?_, ?_, Nat.le_refl _⟩
  · exact fun hdone => absurd hdone (Nat.not_le.mpr hleft)
  · exact fun hday => absurd hopen (by simp [show track.day = none from hday])
  · rw [List.append_nil]
    have hmap : (track.sessions.set i t').map (fun s => s.startedMs.isSome) =
        track.sessions.map fun s => s.startedMs.isSome := by
      refine List.ext_getElem? fun j => ?_
      by_cases hij : i = j
      · subst hij
        obtain ⟨hlt, hget⟩ := List.getElem?_eq_some_iff.mp hat
        simp [hlt, hget, hmark]
      · simp [hij]
    have hcourse : ({ track with sessions := track.sessions.set i t' } : Track).course =
        track.course := by
      simp only [Track.course, hmap]
    exact hcourse.symm ▸ hfits
  · exact congrArg (room + ·) (hnone.trans hfly.symm)

theorem visited_begin {nowMs : ℕ} {urls : Option (List String)} (h : Sound spec track)
    (hopen : track.day.isSome) (hleft : track.daysDone < spec.days) (hfly : track.flights = 0)
    (hs : firstWhere Session.waiting track.sessions = some (i, s)) (hroom : room ≠ 0) :
    Visited spec track room ⟨track.begin i nowMs, room - 1,
      [.started (track.begun i s nowMs false)], urls, rng⟩ := by
  obtain ⟨hat, hwait⟩ := firstWhere_some hs
  have hone : (track.begin i nowMs).flights = 1 := by
    have hcount := countP_modify (p := Session.inFlight)
      (f := fun s => { s with startedMs := some nowMs }) hat
    have hend : s.ended.isNone := (Bool.and_eq_true_iff.mp hwait).2
    have hfly' : track.sessions.countP Session.inFlight = 0 := hfly
    rw [hfly', Session.not_inFlight_of_waiting hwait] at hcount
    simpa [Track.flights, Track.begin, Session.inFlight, hend] using hcount
  refine ⟨⟨h.bound, ?_, h.current, ?_, Nat.le_of_eq hone⟩, fun acts hfits => ?_, ?_, Nat.le_refl _⟩
  · exact fun hdone => absurd hdone (Nat.not_le.mpr hleft)
  · exact fun hday => absurd hopen (by simp [show track.day = none from hday])
  · obtain ⟨d, hday⟩ := Option.isSome_iff_exists.mp hopen
    have hmark : track.course.begun[i]? = some false := by
      have hstart : s.startedMs = none :=
        Option.isNone_iff_eq_none.mp (Bool.and_eq_true_iff.mp hwait).1
      simp [Track.course, hat, hstart]
    have hcourse : (track.begin i nowMs).course =
        { track.course with begun := track.course.begun.set i true } := by
      simp only [Track.course, Track.begin, Course.mk.injEq, true_and]
      refine List.ext_getElem? fun j => ?_
      simp only [List.getElem?_map, List.getElem?_modify, List.getElem?_set]
      by_cases hij : i = j
      · subst hij
        obtain ⟨hlt, -⟩ := List.getElem?_eq_some_iff.mp hat
        simp [hlt]
      · simp [hij]
    rw [hcourse]
    exact hfits.started (h.current d hday) rfl hmark rfl
  · have hfly' : track.flights = 0 := hfly
    dsimp only
    omega

variable (p t room rng) in
theorem visited_startDue (h : Sound spec track) (hopen : track.day.isSome)
    (hleft : track.daysDone < spec.days) (hfly : track.flights = 0) :
    Visited spec track room (startDue p t track room rng) := by
  unfold startDue
  cases hs : firstWhere Session.waiting track.sessions with
  | none => exact .rest h
  | some found =>
    obtain ⟨i, s⟩ := found
    obtain ⟨hat, hwait⟩ := firstWhere_some hs
    obtain ⟨hstart, hend⟩ := Bool.and_eq_true_iff.mp hwait
    dsimp only
    split
    · exact .rest h
    · split
      · refine visited_put h hopen hleft hfly hat rfl ?_
        simp [Session.inFlight, Option.isNone_iff_eq_none.mp hstart]
      · rename_i hclosed
        split
        · exact .rest h
        · rename_i hmay
          have hroom : room ≠ 0 := fun hzero => hmay (by simp [hzero])
          rw [Bool.not_eq_true] at hclosed
          rw [hclosed]
          exact visited_begin h hopen hleft hfly hs hroom

/-- What a pass does about a profile: nothing when its days are done, or it looks after the
session in flight, or closes the day that is over and then goes on if days are left. -/
theorem visit_cases (hv : visit p spec t track room rng = some v) :
    (spec.days ≤ track.daysDone ∧ v = ⟨track, room, [], none, rng⟩) ∨
    track.daysDone < spec.days ∧
      ((∃ i s, firstWhere Session.inFlight track.sessions = some (i, s) ∧
          v = expire p track room rng i s) ∨
        firstWhere Session.inFlight track.sessions = none ∧
          ∃ first more, (first, more) = (if track.over p.nowMs then track.close spec
              else (track, [])) ∧
            ((spec.days ≤ first.daysDone ∧ v = ⟨first, room, more, none, rng⟩) ∨
              first.daysDone < spec.days ∧ ∃ next planning rng',
                planNext p spec t first rng = some (next, planning, rng') ∧
                v = { startDue p t next room rng' with
                  acts := more ++ planning ++ (startDue p t next room rng').acts })) := by
  unfold visit at hv
  split at hv
  · rename_i hdone
    cases hv
    exact .inl ⟨hdone, rfl⟩
  · rename_i hleft
    refine .inr ⟨Nat.not_le.mp hleft, ?_⟩
    cases hs : firstWhere Session.inFlight track.sessions with
    | some found =>
      simp only [hs] at hv
      cases hv
      exact .inl ⟨found.1, found.2, rfl, rfl⟩
    | none =>
      simp only [hs] at hv
      generalize hpair : (if track.over p.nowMs then track.close spec else (track, [])) = pair
        at hv
      obtain ⟨first, more⟩ := pair
      refine .inr ⟨rfl, first, more, rfl, ?_⟩
      dsimp only at hv
      split at hv
      · rename_i hdone
        cases hv
        exact .inl ⟨hdone, rfl⟩
      · rename_i hstill
        obtain ⟨⟨next, planning, rng'⟩, hplan, rfl⟩ := Option.map_eq_some_iff.mp hv
        exact .inr ⟨Nat.not_le.mp hstill, next, planning, rng', hplan, rfl⟩

/-- What a pass does about a profile leaves its track as it has to be. -/
theorem visit_visited (h : Sound spec track) (hv : visit p spec t track room rng = some v) :
    Visited spec track room v := by
  obtain ⟨-, rfl⟩ | ⟨hleft, ⟨i, s, hs, rfl⟩ | ⟨hs, first, more, hpair, hrest⟩⟩ := visit_cases hv
  · exact .rest h
  · exact visited_expire h hs
  · have hfly := not_inFlight hs
    have hfirst : Visited spec track room ⟨first, room, more, none, rng⟩ ∧ first.flights = 0 := by
      split at hpair
      · rename_i hover
        cases hpair
        have hclosed := visited_close room rng h hleft hfly hover
        have hbalance : room + (track.close spec).1.flights = room + track.flights :=
          hclosed.balance
        exact ⟨hclosed, (Nat.add_left_cancel hbalance).trans hfly⟩
      · cases hpair
        exact ⟨.rest h, hfly⟩
    obtain ⟨-, rfl⟩ | ⟨hstill, next, planning, rng', hplan, rfl⟩ := hrest
    · exact hfirst.1
    · obtain ⟨hnext, hnone, hdone, hday⟩ :=
        visited_planNext room hfirst.1.sound hstill hfirst.2 hplan
      have hlast := visited_startDue p t room rng' hnext.sound hday (hdone ▸ hstill) hnone
      exact (hfirst.1.trans hnext).trans hlast

/-- What is noted of a close is that a day was counted in which something was read, or that the
stage was asked for. -/
theorem mem_close {act : Act} (h : act ∈ (track.close spec).2) :
    (act = .counted track.day ∧ ∃ s ∈ track.sessions, s.isDone = true) ∨ act = .ready := by
  rcases List.mem_append.mp h with h | h
  · split at h
    · rename_i hcounts
      obtain ⟨s, hs, hdone⟩ := List.any_eq_true.mp hcounts
      obtain ⟨u, hu, rfl⟩ := List.mem_map.mp hs
      refine .inl ⟨List.mem_singleton.mp h, u, hu, ?_⟩
      unfold Session.skip at hdone
      split at hdone
      · cases hdone
      · exact hdone
    · cases h
  · exact .inr (List.mem_singleton.mp (List.mem_ite_nil_right.mp h).2)

/-- The next day is noted if it is planned, and no session of it is due yet. -/
theorem planNext_cases {next : Track} {more : List Act} {rng' : Rng}
    (h : planNext p spec t track rng = some (next, more, rng')) :
    (track.day.isSome ∧ next = track ∧ more = []) ∨
      ∃ day, more = [.planned day] ∧ next.day = some day ∧ next.lastDay = some day ∧
        ∀ s ∈ next.sessions, p.nowMs < s.atMs ∧ s.startedMs = none ∧ s.ended = none := by
  unfold planNext at h
  split at h
  · rename_i hopen
    cases h
    exact .inl ⟨hopen, rfl, rfl⟩
  · obtain ⟨planned, hplan, heq⟩ := Option.map_eq_some_iff.mp h
    cases heq
    exact .inr ⟨planned.date, rfl, rfl, rfl, (planDay_some hplan (Int.natCast_nonneg _)).2⟩

theorem mem_startDue {act : Act} (h : act ∈ (startDue p t track room rng).acts) :
    ∃ i s, firstWhere Session.waiting track.sessions = some (i, s) ∧ s.atMs ≤ p.nowMs ∧
      p.openIds.contains t.id = false ∧ act = .started (track.begun i s p.nowMs false) := by
  unfold startDue at h
  cases hs : firstWhere Session.waiting track.sessions with
  | none => simp [hs] at h
  | some found =>
    obtain ⟨i, s⟩ := found
    simp only [hs] at h
    split at h
    · cases h
    · rename_i hdue
      split at h
      · cases h
      · rename_i hclosed
        rw [Bool.not_eq_true] at hclosed
        split at h
        · cases h
        · rw [hclosed] at h
          exact ⟨i, s, rfl, Nat.not_lt.mp hdue, hclosed, List.mem_singleton.mp h⟩

/-- What is noted of a visit: a day that was open and in which something was read is counted, or
the stage is asked for, or the next day is planned, or a session is started that is due, before
the hours of its day end. -/
theorem mem_visit {act : Act} (hv : visit p spec t track room rng = some v)
    (h : act ∈ v.acts) :
    (act = .counted track.day ∧ track.day.isSome ∧ ∃ s ∈ track.sessions, s.isDone = true) ∨
      act = .ready ∨ (∃ day, act = .planned day) ∨
      ∃ b, act = .started b ∧ b.atMs ≤ b.startedMs ∧ b.startedMs < b.windowEndMs := by
  obtain ⟨-, rfl⟩ | ⟨-, ⟨i, s, -, rfl⟩ | ⟨-, first, more, hpair, hrest⟩⟩ := visit_cases hv
  · cases h
  · unfold expire at h
    split at h <;> cases h
  · have hmore : act ∈ more → (act = .counted track.day ∧ track.day.isSome ∧
        ∃ s ∈ track.sessions, s.isDone = true) ∨ act = .ready := by
      intro hin
      split at hpair
      · rename_i hover
        cases hpair
        have hday := (Bool.and_eq_true_iff.mp hover).1
        exact (mem_close hin).imp (fun ⟨hact, hdone⟩ => ⟨hact, hday, hdone⟩) id
      · cases hpair
        cases hin
    obtain ⟨-, rfl⟩ | ⟨-, next, planning, rng', hplan, rfl⟩ := hrest
    · exact (hmore h).imp_right .inl
    · rcases List.mem_append.mp h with h | h
      · rcases List.mem_append.mp h with h | h
        · exact (hmore h).imp_right .inl
        · rcases planNext_cases hplan with ⟨-, -, rfl⟩ | ⟨day, rfl, -⟩
          · cases h
          · exact .inr (.inr (.inl ⟨day, List.mem_singleton.mp h⟩))
      · obtain ⟨i, s, hs, hdue, -, rfl⟩ := mem_startDue h
        obtain ⟨hat, -⟩ := firstWhere_some hs
        refine .inr (.inr (.inr ⟨_, rfl, hdue, ?_⟩))
        rcases planNext_cases hplan with ⟨hopen, rfl, -⟩ | ⟨day, -, -, -, hwait⟩
        · split at hpair
          · cases hpair
            cases hopen
          · rename_i hover
            cases hpair
            -- the day is open and not over, so its hours are not
            have hhours : ¬track.windowEndMs ≤ p.nowMs := fun hle =>
              hover (by simp [Track.over, hopen, hle])
            exact Nat.not_le.mp hhours
        · exact absurd (hwait s (List.mem_of_getElem? hat)).1 (Nat.not_lt.mpr hdue)

end Visits

end FuryBrowser.Farming
