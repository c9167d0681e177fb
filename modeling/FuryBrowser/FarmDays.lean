import Mathlib.Algebra.Group.Int.Defs
import Mathlib.Algebra.Group.Nat.Defs
import Mathlib.Data.Int.Order.Basic
import FuryBrowser.AgentDisk

/-!
# The days of a farming plan

A plan visits some sites a day with each of its profiles, within the profile's own hours. A
day is planned when the one before it is over: how many sites, in which order, in how many
sittings and when each of them begins is drawn. The time zone's database is a parameter. An
instant is a number of nanoseconds since 1970, and a day is counted from the first of that year.
-/

namespace FuryBrowser.Farming

open AgentDisk (trim)

section Clock

/-- A minute. -/
def minute : ℤ := 60 * 1000000000

/-- `ms`. -/
def ms (t : ℤ) : ℕ := (t / 1000000).toNat

/-- `num_milliseconds` of the time between two instants. -/
def milliseconds (span : ℤ) : ℤ := span.tdiv 1000000

/-- What is known of a time zone: the day it is there, and the first instant at which its clocks
show an hour of a day, if they do. -/
structure TimeZone where
  today : ℤ → ℤ
  earliest : ℤ → ℕ → Option ℤ

/-- The time zones with a name, and that of this machine. -/
structure Zones where
  /-- A zone of the database. -/
  named : String → Option TimeZone
  host : TimeZone

/-- `Zone::of`. -/
def Zones.of (zones : Zones) (name : Option String) : TimeZone :=
  (name.bind fun n => zones.named (trim n)).getD zones.host

/-- The instant an hour of a day begins in UTC. -/
def utc (date : ℤ) (hour : ℕ) : ℤ := (date * 24 + hour) * 60 * minute

/-- `Zone::at`. -/
def TimeZone.atHour (zone : TimeZone) (date : ℤ) (hour : ℕ) : ℤ :=
  let (date, hour) := if 24 ≤ hour then (date + 1, 0) else (date, hour)
  let later := if hour = 23 then (date + 1, 0) else (date, hour + 1)
  ((zone.earliest date hour).or (zone.earliest later.1 later.2)).getD (utc date hour)

theorem ms_mono {t u : ℤ} (h : t ≤ u) : ms t ≤ ms u :=
  Int.toNat_le_toNat (Int.ediv_le_ediv (by decide) h)

/-- A minute later is sixty thousand milliseconds later. -/
theorem ms_add_minute {t : ℤ} (h : 0 ≤ t) : ms (t + minute) = ms t + 60000 := by
  unfold ms minute
  omega

end Clock

section Draws

/-- The draws to come, whatever they are: each range takes one. -/
abbrev Rng := List ℕ

/-- `gen_range(lo..=hi)`. -/
def genRange (lo hi : ℕ) (rng : Rng) : ℕ × Rng := (lo + rng.headD 0 % (hi + 1 - lo), rng.tail)

/-- `shuffle`: any order may come of it. -/
def shuffle {α : Type} : List α → Rng → List α × Rng
  | [], rng => ([], rng)
  | a :: rest, rng =>
    let (others, rng) := shuffle rest rng
    let (place, rng) := genRange 0 others.length rng
    (others.insertIdx place a, rng)

end Draws

/-- What the operator asked for. -/
structure Spec where
  name : String
  urls : List String
  days : ℕ
  /-- The least and the most sites a day. -/
  sitesPerDay : ℕ × ℕ
  /-- From which local hour to which. -/
  hours : ℕ × ℕ
  /-- How long on a page, in seconds. -/
  dwellSeconds : ℕ × ℕ
  /-- Whether to follow a link. -/
  followLink : Bool
  /-- How many browsers the plan may have open. -/
  atOnce : ℕ
  /-- Whether a profile's stage is set when its last day is done. -/
  setStage : Bool
  deriving DecidableEq, Repr

/-- How a session ended. -/
inductive Outcome where
  | done (sites cookies : ℕ)
  | failed (error : String)
  | skipped (why : String)
  deriving DecidableEq, Repr

/-- A sitting of a day. -/
structure Session where
  atMs : ℕ
  urls : List String
  startedMs : Option ℕ
  ended : Option Outcome
  deriving DecidableEq, Repr

/-- `in_flight`. -/
def Session.inFlight (s : Session) : Bool := s.startedMs.isSome && s.ended.isNone

/-- `waiting`. -/
def Session.waiting (s : Session) : Bool := s.startedMs.isNone && s.ended.isNone

section Planning

/-- `MIN_WINDOW_MS`. -/
def minWindowMs : ℤ := 10 * 60 * 1000

/-- The loop of `plan_day`: the first day from this one on with enough of its hours left, with
the beginning and the end of what is left, if there is one within so many days. -/
def openDay (spec : Spec) (zone : TimeZone) (now : ℤ) :
    ℕ → ℤ → Option (ℤ × ℤ × ℤ)
  | 0, _ => none
  | days + 1, date =>
    let opens := max (zone.atHour date spec.hours.1) (now + minute)
    let closes := zone.atHour date spec.hours.2
    if minWindowMs ≤ milliseconds (closes - opens) then some (date, opens, closes)
    else openDay spec zone now days (date + 1)

/-- The sessions of a day from the `i`-th on: each is early in a slot of its own, and takes its
share of the sites that are left. -/
def sittings (opens slot : ℕ) : ℕ → ℕ → List String → Rng → List Session × Rng
  | _, 0, _, rng => ([], rng)
  | i, left + 1, urls, rng =>
    let share := urls.length / (left + 1)
    let (late, rng) := genRange 0 (slot * 6 / 10) rng
    let (rest, rng) := sittings opens slot (i + 1) left (urls.drop share) rng
    (⟨opens + slot * i + late, urls.take share, none, none⟩ :: rest, rng)

/-- A day as it was planned. -/
structure Planned where
  date : ℤ
  endMs : ℕ
  sessions : List Session
  /-- The draws that are left. -/
  rng : Rng

/-- `plan_day`: the next day after the last one that is not over yet, and what is done in it. -/
def planDay (spec : Spec) (zone : TimeZone) (after : Option ℤ) (now : ℤ) (days : ℕ)
    (rng : Rng) : Option Planned :=
  let today := zone.today now
  let date := match after with
    | some last => if today ≤ last then last + 1 else today
    | none => today
  (openDay spec zone now days date).map fun (date, opens, closes) =>
    let (drawn, rng) := genRange spec.sitesPerDay.1 spec.sitesPerDay.2 rng
    let k := max 1 (min drawn (max spec.urls.length 1))
    let (urls, rng) := shuffle spec.urls rng
    let (n, rng) := if k ≤ 3 then (1, rng) else genRange 1 (min (k / 2) 3) rng
    let span := (max (milliseconds (closes - opens)) 1).toNat
    let (sessions, rng) := sittings (ms opens) (span / n) 0 n (urls.take k) rng
    ⟨date, ms closes, sessions, rng⟩

variable {spec : Spec} {zone : TimeZone} {now : ℤ} {days : ℕ} {rng : Rng}

/-- The day that is found is not before the one the search begins with, and begins a minute from
now at the earliest. -/
theorem openDay_some {date d : ℤ} {opens closes : ℤ}
    (h : openDay spec zone now days date = some (d, opens, closes)) :
    date ≤ d ∧ now + minute ≤ opens := by
  induction days generalizing date with
  | zero => cases h
  | succ days ih =>
    simp only [openDay] at h
    split at h
    · cases h
      exact ⟨le_refl _, le_max_right _ _⟩
    · obtain ⟨hdate, hopens⟩ := ih h
      exact ⟨by omega, hopens⟩

/-- A planned session waits, and is due when the day's hours have begun. -/
theorem mem_sittings {opens slot i left : ℕ} {urls : List String} {s : Session}
    (h : s ∈ (sittings opens slot i left urls rng).1) :
    opens ≤ s.atMs ∧ s.startedMs = none ∧ s.ended = none := by
  induction left generalizing i urls rng with
  | zero => cases h
  | succ left ih =>
    rcases List.mem_cons.mp h with rfl | h
    · exact ⟨by dsimp only; omega, rfl, rfl⟩
    · exact ih h

/-- A day is planned after the last one, and its sessions wait for a time to come. -/
theorem planDay_some {after : Option ℤ} {p : Planned}
    (h : planDay spec zone after now days rng = some p) (hnow : 0 ≤ now) :
    (∀ last ∈ after, last < p.date) ∧
      ∀ s ∈ p.sessions, ms now < s.atMs ∧ s.startedMs = none ∧ s.ended = none := by
  obtain ⟨⟨date, opens, closes⟩, hopen, rfl⟩ := Option.map_eq_some_iff.mp h
  obtain ⟨hdate, hopens⟩ := openDay_some hopen
  refine ⟨fun last hlast => ?_, fun s hs => ?_⟩
  · obtain rfl := Option.mem_def.mp hlast
    dsimp only at hdate ⊢
    split at hdate <;> omega
  · obtain ⟨hat, hwaits⟩ := mem_sittings hs
    have hlater : ms now + 60000 ≤ ms opens := by
      rw [← ms_add_minute hnow]
      exact ms_mono hopens
    exact ⟨by omega, hwaits⟩

end Planning

end FuryBrowser.Farming
