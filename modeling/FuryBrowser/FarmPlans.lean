import FuryBrowser.FarmDays
import FuryBrowser.RowTable
import Mathlib.Algebra.GroupWithZero.Nat

/-!
# Farming plans

A plan warms a set of profiles a little every day. What it knows of a profile is its track: how
many days are done, which day is open, and the sessions of that day. Three things start a
session and four end one; each of them is a function here. Beside what the code returns, a pass
notes what it did.
-/

namespace FuryBrowser.Farming

open AgentDisk (trim)
open RowTable

section Lists

variable {α : Type}

/-- The first one of a list with a property, and where it is. -/
def firstWhere (p : α → Bool) (l : List α) : Option (ℕ × α) :=
  (l.findIdx? p).bind fun i => l[i]?.map fun a => (i, a)

/-- `find` and a change to what it finds. -/
def modifyFirst (p : α → Bool) (f : α → α) : List α → List α
  | [] => []
  | a :: rest => if p a then f a :: rest else a :: modifyFirst p f rest

variable {p : α → Bool} {f : α → α} {l : List α} {i : ℕ} {a b : α}

/-- What is found is where it says, and has the property. -/
theorem firstWhere_some (h : firstWhere p l = some (i, a)) : l[i]? = some a ∧ p a = true := by
  obtain ⟨j, hj, hmap⟩ := Option.bind_eq_some_iff.mp h
  obtain ⟨c, hc, hpair⟩ := Option.map_eq_some_iff.mp hmap
  cases hpair
  have hfound := List.of_findIdx?_eq_some hj
  rw [hc] at hfound
  exact ⟨hc, hfound⟩

/-- If nothing is found, nothing has it. -/
theorem firstWhere_none (h : firstWhere p l = none) : ∀ a ∈ l, p a = false := by
  cases hj : l.findIdx? p with
  | none => exact List.findIdx?_eq_none_iff.mp hj
  | some j =>
    obtain ⟨hlt, -⟩ := List.findIdx?_eq_some_iff_getElem.mp hj
    simp [firstWhere, hj, List.getElem?_eq_getElem hlt] at h

/-- What `find` finds is what the search with a place finds. -/
theorem find?_eq_firstWhere : l.find? p = (firstWhere p l).map Prod.snd := by
  induction l with
  | nil => rfl
  | cons a rest ih =>
    by_cases ha : p a
    · simp [firstWhere, List.findIdx?_cons, ha]
    · rw [List.find?_cons_of_neg ha, ih]
      simp [firstWhere, List.findIdx?_cons, ha, Option.bind_map, Option.map_bind,
        Function.comp_def]

/-- A change to one element changes a count by that element. -/
theorem countP_modify (h : l[i]? = some a) :
    (l.modify i f).countP p + (if p a then 1 else 0) =
      l.countP p + if p (f a) then 1 else 0 := by
  induction l generalizing i with
  | nil => cases h
  | cons b rest ih =>
    cases i with
    | zero =>
      cases h
      simp only [List.modify_zero_cons, List.countP_cons]
      omega
    | succ i =>
      have hrest := ih (i := i) h
      simp only [List.modify_succ_cons, List.countP_cons]
      omega

/-- An element of a list that was changed in one place was there, or is the change. -/
theorem mem_modify (h : b ∈ l.modify i f) : b ∈ l ∨ ∃ a, l[i]? = some a ∧ b = f a := by
  obtain ⟨j, hj⟩ := List.mem_iff_getElem?.mp h
  rw [List.getElem?_modify] at hj
  obtain ⟨c, hc, rfl⟩ := Option.map_eq_some_iff.mp hj
  split
  · rename_i heq
    exact .inr ⟨c, heq ▸ hc, rfl⟩
  · exact .inl (List.mem_of_getElem? hc)

theorem mem_modifyFirst (h : b ∈ modifyFirst p f l) :
    b ∈ l ∨ ∃ a ∈ l, p a = true ∧ b = f a := by
  induction l with
  | nil => cases h
  | cons a rest ih =>
    simp only [modifyFirst] at h
    split at h
    · rename_i ha
      rcases List.mem_cons.mp h with rfl | h
      · exact .inr ⟨a, List.mem_cons_self, ha, rfl⟩
      · exact .inl (List.mem_cons_of_mem _ h)
    · rcases List.mem_cons.mp h with rfl | h
      · exact .inl List.mem_cons_self
      · rcases ih h with h | ⟨c, hc, hp⟩
        · exact .inl (List.mem_cons_of_mem _ h)
        · exact .inr ⟨c, List.mem_cons_of_mem _ hc, hp⟩

end Lists

/-- `MAX_DAYS`. -/
def maxDays : ℕ := 90

/-- `MAX_SITES_PER_DAY`. -/
def maxSitesPerDay : ℕ := 100

/-- `MAX_AT_ONCE`. -/
def maxAtOnce : ℕ := 6

/-- `STALE_MS`. -/
def staleMs : ℕ := 2 * 60 * 60 * 1000

/-- `Spec::check`. -/
def Spec.check (spec : Spec) : Except String Unit := do
  if spec.urls.all fun u => trim u = "" then throw "nothing to visit: the list is empty"
  if !(1 ≤ spec.days && spec.days ≤ maxDays) then throw s!"days: from 1 to {maxDays}"
  if spec.sitesPerDay.1 < 1 || spec.sitesPerDay.2 < spec.sitesPerDay.1 ||
      maxSitesPerDay < spec.sitesPerDay.2 then
    throw s!"sites a day: from 1 to {maxSitesPerDay}, the first no more than the second"
  if 24 < spec.hours.2 || spec.hours.2 ≤ spec.hours.1 then
    throw "hours: from 0 to 24, the start before the end"
  if !(1 ≤ spec.atOnce && spec.atOnce ≤ maxAtOnce) then throw s!"at once: from 1 to {maxAtOnce}"
  if spec.dwellSeconds.1 < 1 || spec.dwellSeconds.2 < spec.dwellSeconds.1 then
    throw "time per page: the first no more than the second"

/-- A profile of a plan. -/
structure Target where
  id : String
  name : String
  /-- `local`, `team` or `shared`. -/
  origin : String
  /-- The name of its time zone. -/
  timezone : Option String
  deriving DecidableEq, Repr

/-- `is_local`. -/
def Target.isLocal (t : Target) : Bool := t.origin = "local"

/-- One profile's way through a plan. The days are dates here, and text in the file. -/
structure Track where
  /-- The days that are done. -/
  daysDone : ℕ
  /-- The last day that was planned. -/
  lastDay : Option ℤ
  day : Option ℤ
  windowEndMs : ℕ
  /-- The sessions of the last day. -/
  sessions : List Session
  /-- The sites visited so far. -/
  sites : ℕ
  /-- The cookies at the last session. -/
  cookies : Option ℕ
  /-- The last thing that went wrong. -/
  lastError : Option String
  /-- A stage that the shell is to set. -/
  stagePending : Option String
  deriving DecidableEq, Repr

/-- `Track::default`. -/
def Track.new : Track := ⟨0, none, none, 0, [], 0, none, none, none⟩

/-- A plan. -/
structure Farm where
  id : String
  createdMs : ℕ
  spec : Spec
  targets : List Target
  tracks : List (String × Track)
  paused : Bool
  deriving DecidableEq, Repr

/-- The track of a profile. -/
def Farm.track (f : Farm) (profile : String) : Option Track :=
  (lookup Prod.fst f.tracks profile).map Prod.snd

/-- How many sessions of some tracks are in flight. -/
def flying (tracks : List (String × Track)) : ℕ :=
  (tracks.map fun e => e.2.sessions.countP Session.inFlight).sum

/-- `in_flight`. -/
def Farm.inFlight (f : Farm) : ℕ := flying f.tracks

/-- `finished`. -/
def Farm.finished (f : Farm) : Bool :=
  f.targets.all fun t => (f.track t.id).any fun track => f.spec.days ≤ track.daysDone

/-- `label`. -/
def Farm.label (f : Farm) : String :=
  if trim f.spec.name = "" then s!"{f.targets.length} profiles" else trim f.spec.name

/-- `warm::Plan`. -/
structure WarmPlan where
  urls : List String
  /-- How long on a page, in seconds. -/
  dwellSeconds : ℕ × ℕ
  /-- Whether to follow a link. -/
  followLink : Bool
  /-- Whether the browser is closed after it. -/
  closeAfter : Bool
  /-- The plan it is a session of. -/
  farmId : Option String
  deriving DecidableEq, Repr

/-- `session_plan`. -/
def sessionPlan (spec : Spec) (farm : String) (urls : List String) : WarmPlan :=
  ⟨urls, spec.dwellSeconds, spec.followLink, true, some farm⟩

/-- How a session went, as its run reports it. -/
structure Progress where
  /-- The sites that were visited. -/
  done : ℕ
  /-- The cookies in the end. -/
  cookiesNow : ℕ
  /-- Whether it was stopped. -/
  stopped : Bool
  error : Option String
  deriving DecidableEq, Repr

/-- A session that was started: which one of which day, what was known of it then, and when. -/
structure Begun where
  /-- The day it was planned for. -/
  day : Option ℤ
  index : ℕ
  atMs : ℕ
  /-- When the hours of its day end. -/
  windowEndMs : ℕ
  startedMs : ℕ
  /-- Whether the profile was open. -/
  wasOpen : Bool
  deriving DecidableEq, Repr

/-- What is noted of a profile's way through a plan. -/
inductive Act where
  | planned (day : ℤ)
  /-- A day was counted as done. -/
  | counted (day : Option ℤ)
  /-- The stage was asked for. -/
  | ready
  | started (begun : Begun)
  /-- The run of a session reported that it had read so many sites. -/
  | reported (day : Option ℤ) (index sites : ℕ)
  deriving DecidableEq, Repr

section Tracks

variable (track : Track)

/-- A session of a track ends. -/
def Track.finish (i : ℕ) (outcome : Outcome) : Track :=
  { track with sessions := track.sessions.modify i fun s => { s with ended := some outcome } }

/-- A session of a track starts. -/
def Track.begin (i nowMs : ℕ) : Track :=
  { track with sessions := track.sessions.modify i fun s => { s with startedMs := some nowMs } }

/-- What is noted when it does. -/
def Track.begun (i : ℕ) (s : Session) (nowMs : ℕ) (wasOpen : Bool) : Begun :=
  ⟨track.lastDay, i, s.atMs, track.windowEndMs, nowMs, wasOpen⟩

/-- The day is over: every session is, or its hours are. -/
def Track.over (nowMs : ℕ) : Bool :=
  track.day.isSome && (track.sessions.all (fun s => s.ended.isSome) || track.windowEndMs ≤ nowMs)

/-- A session that still waits at the end of the day. -/
def Session.skip (s : Session) : Session :=
  if s.waiting then { s with ended := some (.skipped "the day's hours ran out") } else s

/-- It ended as done. -/
def Session.isDone (s : Session) : Bool :=
  match s.ended with
  | some (.done _ _) => true
  | _ => false

/-- The day is closed: it counts if anything was read in it, and the last one that counts asks for
the stage. -/
def Track.close (spec : Spec) : Track × List Act :=
  let sessions := track.sessions.map Session.skip
  let counts := sessions.any Session.isDone
  let daysDone := if counts then track.daysDone + 1 else track.daysDone
  let asks := decide (spec.days ≤ daysDone) && spec.setStage
  ({ track with
      daysDone := daysDone
      day := none
      sessions := sessions
      stagePending := if asks then some "ready" else track.stagePending },
    (if counts then [.counted track.day] else []) ++ if asks then [.ready] else [])

end Tracks

/-- What a pass over the plans is given. -/
structure Pass where
  /-- The clock: `Utc::now` does not go back beyond 1970. -/
  now : ℕ
  /-- The profiles that are open. -/
  openIds : List String
  zones : Zones
  /-- How far ahead a day is looked for: for longer, and the pass does not end. -/
  days : ℕ

/-- Its clock in milliseconds. -/
def Pass.nowMs (p : Pass) : ℕ := ms p.now

/-- What a pass made of a track. -/
structure Visit where
  track : Track
  /-- How many more sessions may be started. -/
  room : ℕ
  acts : List Act
  /-- The sites of the session that is to be started. -/
  urls : Option (List String)
  /-- The draws that are left. -/
  rng : Rng

section Passing

variable (p : Pass) (spec : Spec) (t : Target) (track : Track) (room : ℕ) (rng : Rng)

/-- A session in flight that did not report in time is not going to. -/
def expire (i : ℕ) (s : Session) : Visit :=
  if staleMs < p.nowMs - s.startedMs.getD p.nowMs then
    ⟨track.finish i (.failed "the session never reported back"), room + 1, [], none, rng⟩
  else ⟨track, room, [], none, rng⟩

/-- The next day is planned unless one is open. -/
def planNext : Option (Track × List Act × Rng) :=
  if track.day.isSome then some (track, [], rng)
  else (planDay spec (p.zones.of t.timezone) track.lastDay p.now p.days rng).map fun planned =>
    ({ track with
        day := some planned.date
        lastDay := some planned.date
        windowEndMs := planned.endMs
        sessions := planned.sessions },
      [.planned planned.date], planned.rng)

/-- The first session that waits is started if it is due, and put off if the profile is open. -/
def startDue : Visit :=
  match firstWhere Session.waiting track.sessions with
  | none => ⟨track, room, [], none, rng⟩
  | some (i, s) =>
    if p.nowMs < s.atMs then ⟨track, room, [], none, rng⟩
    else if p.openIds.contains t.id then
      let (minutes, rng) := genRange 20 40 rng
      let later := p.nowMs + minutes * 60 * 1000
      let put := { s with
        atMs := later
        ended := if track.windowEndMs ≤ later then some (.skipped "the profile was open")
          else s.ended }
      ⟨{ track with sessions := track.sessions.set i put }, room, [], none, rng⟩
    else if !t.isLocal || room = 0 then ⟨track, room, [], none, rng⟩
    else ⟨track.begin i p.nowMs, room - 1,
      [.started (track.begun i s p.nowMs (p.openIds.contains t.id))], some s.urls, rng⟩

/-- What `step` does about a profile of a plan. -/
def visit : Option Visit :=
  if spec.days ≤ track.daysDone then some ⟨track, room, [], none, rng⟩
  else
    match firstWhere Session.inFlight track.sessions with
    | some (i, s) => some (expire p track room rng i s)
    | none =>
      let (track, closing) := if track.over p.nowMs then track.close spec else (track, [])
      if spec.days ≤ track.daysDone then some ⟨track, room, closing, none, rng⟩
      else (planNext p spec t track rng).map fun (track, planning, rng) =>
        let v := startDue p t track room rng
        { v with acts := closing ++ planning ++ v.acts }

end Passing

/-- A session that the agent is to start now. -/
structure Start where
  profileId : String
  name : String
  plan : WarmPlan
  deriving DecidableEq, Repr

/-- What is noted, and of what. -/
structure Record where
  farm : String
  profile : String
  act : Act
  deriving DecidableEq, Repr

/-- What a pass over a plan has come to. -/
structure Round where
  tracks : List (String × Track)
  /-- How many more of its sessions may be started. -/
  room : ℕ
  starts : List Start
  log : List Record
  /-- The draws that are left. -/
  rng : Rng

/-- What `step` does about one of a plan's profiles. -/
def Round.visit (p : Pass) (farm : Farm) (r : Round) (t : Target) : Option Round :=
  let track := ((lookup Prod.fst r.tracks t.id).map Prod.snd).getD .new
  (Farming.visit p farm.spec t track r.room r.rng).map fun v =>
    { tracks := put Prod.fst (t.id, v.track) r.tracks
      room := v.room
      starts := r.starts ++
        (v.urls.map fun urls => ⟨t.id, t.name, sessionPlan farm.spec farm.id urls⟩).toList
      log := r.log ++ v.acts.map fun act => ⟨farm.id, t.id, act⟩
      rng := v.rng }

/-- What a pass over all plans has come to. -/
structure Passed where
  list : List Farm
  starts : List Start
  log : List Record
  /-- The draws that are left. -/
  rng : Rng

/-- What `step` does about a plan: the rest of them come after it. -/
def stepFarm (p : Pass) (farm : Farm) (starts : List Start) (log : List Record) (rng : Rng) :
    Option (Farm × Round) :=
  if farm.paused then some (farm, ⟨farm.tracks, 0, starts, log, rng⟩)
  else (farm.targets.foldlM (Round.visit p farm)
      ⟨farm.tracks, farm.spec.atOnce - farm.inFlight, starts, log, rng⟩).map fun r =>
    ({ farm with tracks := r.tracks }, r)

/-- `step`, and what it did beside what was done before. -/
def stepAll (p : Pass) : List Farm → List Start → List Record → Rng → Option Passed
  | [], starts, log, rng => some ⟨[], starts, log, rng⟩
  | farm :: rest, starts, log, rng =>
    (stepFarm p farm starts log rng).bind fun (farm, r) =>
      (stepAll p rest r.starts r.log r.rng).map fun more =>
        { more with list := farm :: more.list }

section Commands

/-- A profile is in a plan that is not finished. -/
def Farm.holds (f : Farm) (profile : String) : Bool :=
  !f.finished && f.targets.any fun t => t.id = profile

variable (list : List Farm)

/-- The loop of `create`: no profile is in a plan that is not finished. -/
def checkFree : List Target → Except String Unit
  | [] => .ok ()
  | t :: rest =>
    match list.find? fun f => f.holds t.id with
    | some f => .error (t.name ++ " is already in the plan \"" ++ f.label ++ "\"")
    | none => checkFree rest

/-- `create`. -/
def create (spec : Spec) (targets : List Target) (nowMs : ℕ) (id : String) :
    Except String (List Farm) := do
  spec.check
  if targets = [] then throw "no profiles in the plan"
  checkFree list targets
  let urls := (spec.urls.map trim).filter fun u => u ≠ ""
  pure (list ++ [⟨id, nowMs, { spec with urls := urls }, targets, [], false⟩])

/-- `delete`. -/
def delete (id : String) : List Farm := list.filter fun f => f.id ≠ id

/-- `pause`. -/
def pause (id : String) (paused : Bool) : List Farm :=
  modifyFirst (fun f => f.id = id) (fun f => { f with paused := paused }) list

/-- `track_mut`. -/
def trackOf (farm profile : String) : Option Track :=
  (list.find? fun f => f.id = farm).bind fun f => f.track profile

/-- A track is changed in its plan. -/
def setTrack (farm profile : String) (track : Track) : List Farm :=
  modifyFirst (fun f => f.id = farm)
    (fun f => { f with tracks := put Prod.fst (profile, track) f.tracks }) list

/-- The outcome that a report stands for. -/
def Progress.outcome (last : Progress) : Outcome :=
  match last.error, last.done with
  | some e, 0 => .failed e
  | none, 0 => if last.stopped then .failed "stopped" else .done last.done last.cookiesNow
  | _, _ => .done last.done last.cookiesNow

/-- What a report makes of a track: it is the session in flight that ended, if there is one. -/
def Track.report (track : Track) (last : Progress) : Option Track :=
  (firstWhere Session.inFlight track.sessions).map fun (i, _) =>
    { track.finish i last.outcome with
      sites := track.sites + last.done
      cookies := if 0 < last.cookiesNow then some last.cookiesNow else track.cookies
      lastError := last.error }

/-- `report`. -/
def report (farm profile : String) (last : Progress) : Option (List Farm) := do
  let track ← trackOf list farm profile
  let track ← track.report last
  pure (setTrack list farm profile track)

/-- What a failure makes of a track. -/
def Track.fail (track : Track) (error : String) : Track :=
  let ended := match firstWhere Session.inFlight track.sessions with
    | some (i, _) => track.finish i (.failed error)
    | none => track
  { ended with lastError := some error }

/-- `fail`. -/
def fail (farm profile error : String) : Option (List Farm) := do
  let track ← trackOf list farm profile
  pure (setTrack list farm profile (track.fail error))

/-- `stage_applied`. -/
def stageApplied (farm profile : String) : List Farm :=
  match trackOf list farm profile with
  | some track => setTrack list farm profile { track with stagePending := none }
  | none => list

/-- A team session that is due. -/
structure Due where
  farmId : String
  profileId : String
  name : String
  origin : String
  deriving DecidableEq, Repr

/-- A track whose first waiting session is due, with none in flight. -/
def Track.isDue (track : Track) (nowMs : ℕ) : Bool :=
  ((track.sessions.find? Session.waiting).any fun s => s.atMs ≤ nowMs) &&
    !track.sessions.any Session.inFlight

/-- The team sessions of a plan that are due, as long as it has room. -/
def dueIn (farm : Farm) (nowMs : ℕ) (openIds : List String) : List Target → ℕ → List Due
  | [], _ => []
  | t :: rest, room =>
    if room = 0 then []
    else if ((farm.track t.id).any fun track => track.isDue nowMs) && !openIds.contains t.id then
      ⟨farm.id, t.id, t.name, t.origin⟩ :: dueIn farm nowMs openIds rest (room - 1)
    else dueIn farm nowMs openIds rest room

/-- `due`. -/
def due (nowMs : ℕ) (openIds : List String) : List Due :=
  (list.filter fun f => !f.paused).flatMap fun farm =>
    dueIn farm nowMs openIds (farm.targets.filter fun t => !t.isLocal)
      (farm.spec.atOnce - farm.inFlight)

/-- `claim`: the session that is handed out is started. -/
def claim (farm profile : String) (nowMs : ℕ) (openIds : List String) :
    Option (List Farm × WarmPlan × Begun) := do
  guard ((due list nowMs openIds).any fun d => d.farmId = farm && d.profileId = profile)
  let f ← list.find? fun f => f.id = farm
  let track ← f.track profile
  let (i, s) ← firstWhere Session.waiting track.sessions
  pure (setTrack list farm profile (track.begin i nowMs), sessionPlan f.spec farm s.urls,
    track.begun i s nowMs (openIds.contains profile))

/-- What is left of a session when the agent starts again. -/
def Session.interrupt (s : Session) : Session :=
  if s.inFlight then { s with ended := some (.failed "Fury stopped during the session") } else s

/-- Of a track. -/
def Track.interrupt (track : Track) : Track :=
  { track with sessions := track.sessions.map Session.interrupt }

/-- Of a plan. -/
def Farm.interrupt (f : Farm) : Farm :=
  { f with tracks := f.tracks.map fun (profile, track) => (profile, track.interrupt) }

end Commands

section Creation

variable {list list' : List Farm} {spec : Spec} {targets : List Target} {nowMs : ℕ}
  {id : String}

/-- A plan that may be made is for a day at least. -/
theorem days_of_check (h : spec.check = .ok ()) : 1 ≤ spec.days := by
  by_contra hnot
  have hzero : spec.days = 0 := by omega
  unfold Spec.check at h
  simp only [hzero] at h
  split at h
  · cases h
  · simp [maxDays] at h
    cases h

theorem checkFree_ok (h : checkFree list targets = .ok ()) :
    ∀ t ∈ targets, ∀ f ∈ list, f.holds t.id = false := by
  induction targets with
  | nil => nofun
  | cons u rest ih =>
    unfold checkFree at h
    cases hfind : list.find? fun f => f.holds u.id with
    | some f => simp [hfind] at h
    | none =>
      rw [hfind] at h
      intro t ht f hf
      rcases List.mem_cons.mp ht with rfl | ht
      · simpa using List.find?_eq_none.mp hfind f hf
      · exact ih h t ht f hf

/-- A plan is made for a day at least, and for profiles that are in no plan. -/
theorem create_ok (h : create list spec targets nowMs id = .ok list') :
    1 ≤ spec.days ∧ (∀ t ∈ targets, ∀ f ∈ list, f.holds t.id = false) ∧
      ∃ urls, list' = list ++ [⟨id, nowMs, { spec with urls := urls }, targets, [], false⟩] := by
  unfold create at h
  cases hcheck : spec.check with
  | error e => simp [hcheck, bind, Except.bind] at h
  | ok u =>
    cases hfree : checkFree list targets with
    | error e => by_cases ht : targets = [] <;>
        simp [hcheck, hfree, ht, bind, Except.bind, throw, throwThe, MonadExceptOf.throw] at h
    | ok u' =>
      refine ⟨days_of_check hcheck, checkFree_ok hfree, ?_⟩
      by_cases ht : targets = []
      · simp [hcheck, ht, bind, Except.bind, throw, throwThe, MonadExceptOf.throw] at h
      · simp only [hcheck, hfree, ht, bind, Except.bind, if_false] at h
        cases h
        exact ⟨_, rfl⟩

end Creation

end FuryBrowser.Farming
