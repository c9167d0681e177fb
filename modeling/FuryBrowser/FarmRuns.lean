import FuryBrowser.FarmTracks
import FuryBrowser.GuardedRuns

/-!
# Runs of the farming plans

The agent keeps its plans in memory and in one file, which it writes beside and renames over
after each change. A write may fail, and what is left beside is then whatever it is. When the
agent starts it reads the file, and whatever it cannot read or understand is no plan at all.

Beside the agent's state stands what was done so far, which nothing reads: it says which runs
of sessions there are, and so which reports may come, at any time after the start.
-/

namespace FuryBrowser.Farming

open GuardedRuns

variable {β : Type}

/-- The plans as the bytes of a file: `to_string_pretty` and `from_str`. -/
structure PlansFormat (β : Type) where
  print : List Farm → β
  /-- The plans that bytes are. -/
  parse : β → Option (List Farm)
  /-- Whether bytes are UTF-8. -/
  isText : β → Bool
  blank : β
  /-- What is written is what is read. -/
  parse_print : ∀ list, parse (print list) = some list
  isText_print : ∀ list, isText (print list) = true
  /-- The empty text is no plans. -/
  parse_blank : parse blank = none

/-- How a write goes. -/
inductive Wrote (β : Type) where
  | done
  /-- It is not, and something is left beside it. -/
  | broken (beside : Option β)
  deriving DecidableEq, Repr

/-- What the agent has, what the disk has, and what was done. -/
structure World (β : Type) where
  list : List Farm
  written : β
  file : Option β
  beside : Option β
  log : List Record
  /-- The ids that were given to plans. -/
  ids : List String
  /-- Every start of the agent so far has found the plans as they were. -/
  intact : Bool
  deriving DecidableEq, Repr

/-- What is asked of the plans. -/
inductive Op where
  /-- A plan is made, at a time, with a new id. -/
  | create (spec : Spec) (targets : List Target) (nowMs : ℕ) (id : String)
  | step (pass : Pass) (rng : Rng)
  /-- The shell takes a session. -/
  | claim (farm profile : String) (nowMs : ℕ) (openIds : List String)
  /-- The run of a session reports. -/
  | report (farm profile : String) (begun : Begun) (last : Progress)
  /-- A session could not be started. -/
  | fail (farm profile error : String)
  /-- A plan is paused, or goes on. -/
  | pause (id : String) (paused : Bool)
  | delete (id : String)
  | stageApplied (farm profile : String)
  /-- The agent starts, and can read the file or not. -/
  | load (readable : Bool)

section Steps

variable [DecidableEq β] (fmt : PlansFormat β) (w : World β)

/-- The plans that the disk has. -/
def World.onDisk : Option (List Farm) :=
  (w.file.filter fun bytes => fmt.isText bytes).bind fmt.parse

/-- What the file says when the agent starts: `read_to_string`, or nothing. -/
def World.raw (readable : Bool) : β :=
  if readable then (w.file.filter fun bytes => fmt.isText bytes).getD fmt.blank else fmt.blank

/-- The plans that the agent finds then. -/
def World.found (readable : Bool) : List Farm := (fmt.parse (w.raw fmt readable)).getD []

/-- `save`. -/
def World.save (wrote : Wrote β) : World β :=
  let body := fmt.print w.list
  if body = w.written then w
  else
    match wrote with
    | .done => { w with written := body, file := some body, beside := none }
    | .broken beside => { w with beside := beside }

/-- What becomes of the plans, and whether they are saved then. -/
def World.after : Op → Option (World β × Bool)
  | .create spec targets nowMs id =>
    match Farming.create w.list spec targets nowMs id with
    | .error _ => some (w, false)
    | .ok list => if id ∈ w.ids then none
      else some ({ w with list := list, ids := id :: w.ids }, true)
  | .step pass rng =>
    (stepAll pass w.list [] [] rng).map fun r =>
      ({ w with list := r.list, log := w.log ++ r.log }, true)
  | .claim farm profile nowMs openIds =>
    match Farming.claim w.list farm profile nowMs openIds with
    | none => some (w, false)
    | some (list, _, begun) =>
      some ({ w with list := list, log := w.log ++ [⟨farm, profile, .started begun⟩] }, true)
  | .report farm profile begun last =>
    -- a report is that of a run, which began with its session
    if ⟨farm, profile, .started begun⟩ ∈ w.log then
      let log := w.log ++ [⟨farm, profile, .reported begun.day begun.index last.done⟩]
      match Farming.report w.list farm profile last with
      | none => some ({ w with log := log }, false)
      | some list => some ({ w with list := list, log := log }, true)
    else none
  | .fail farm profile error =>
    match Farming.fail w.list farm profile error with
    | none => some (w, false)
    | some list => some ({ w with list := list }, true)
  | .pause id paused => some ({ w with list := Farming.pause w.list id paused }, true)
  | .delete id => some ({ w with list := Farming.delete w.list id }, true)
  | .stageApplied farm profile =>
    some ({ w with list := Farming.stageApplied w.list farm profile }, true)
  | .load readable =>
    let list := w.found fmt readable
    some ({ w with
      list := list.map Farm.interrupt
      written := w.raw fmt readable
      intact := w.intact && decide (list = w.list) }, true)

/-- One step, and how its write goes. -/
def World.step (label : Op × Wrote β) : Option (World β) :=
  (w.after fmt label.1).map fun (u, saves) => if saves then u.save fmt label.2 else u

/-- The agent's first start is to come, and there is no file. -/
def World.new : World β := ⟨[], fmt.blank, none, none, [], [], true⟩

/-- It was never started. -/
def World.IsNew : Prop := w = World.new fmt

end Steps

section Saving

variable {fmt : PlansFormat β} {w : World β} {wrote : Wrote β}

variable (fmt w) in
/-- What the agent finds when it starts is what the disk has, or nothing. -/
theorem World.found_cases (readable : Bool) :
    w.onDisk fmt = some (w.found fmt readable) ∨ w.found fmt readable = [] := by
  unfold found raw
  cases readable with
  | false => exact .inr (by simp [fmt.parse_blank])
  | true =>
    unfold onDisk
    cases w.file.filter fun bytes => fmt.isText bytes with
    | none => exact .inr (by simp [fmt.parse_blank])
    | some bytes => cases hp : fmt.parse bytes <;> simp [hp]

variable [DecidableEq β]

@[simp] theorem World.save_list : (w.save fmt wrote).list = w.list := by
  unfold save
  dsimp only
  split
  · rfl
  · cases wrote <;> rfl

@[simp] theorem World.save_log : (w.save fmt wrote).log = w.log := by
  unfold save
  dsimp only
  split
  · rfl
  · cases wrote <;> rfl

@[simp] theorem World.save_ids : (w.save fmt wrote).ids = w.ids := by
  unfold save
  dsimp only
  split
  · rfl
  · cases wrote <;> rfl

@[simp] theorem World.save_intact : (w.save fmt wrote).intact = w.intact := by
  unfold save
  dsimp only
  split
  · rfl
  · cases wrote <;> rfl

/-- A file is as it was after a write, or it says what the agent has. -/
theorem World.save_file : (w.save fmt wrote).file = w.file ∨
    (w.save fmt wrote).file = some (fmt.print w.list) := by
  unfold save
  dsimp only
  split
  · exact .inl rfl
  · cases wrote with
    | done => exact .inr rfl
    | broken _ => exact .inl rfl

theorem World.onDisk_of_file (h : w.file = some (fmt.print w.list)) :
    w.onDisk fmt = some w.list := by
  simp [onDisk, h, Option.filter, fmt.isText_print, fmt.parse_print]

theorem World.save_onDisk : (w.save fmt wrote).onDisk fmt = w.onDisk fmt ∨
    (w.save fmt wrote).onDisk fmt = some w.list := by
  have hfile : (w.save fmt wrote).file = w.file ∨
      (w.save fmt wrote).file = some (fmt.print w.list) := save_file
  have hlist : (w.save fmt wrote).list = w.list := save_list
  rcases hfile with h | h
  · exact .inl (by rw [onDisk, onDisk, h])
  · rw [← hlist] at h ⊢
    exact .inr (onDisk_of_file h)

/-- A step is a change, which may be saved. -/
theorem World.step_cases {t : World β} {label : Op × Wrote β} (h : w.step fmt label = some t) :
    ∃ u saves, w.after fmt label.1 = some (u, saves) ∧
      (t = u ∨ t = u.save fmt label.2) := by
  obtain ⟨⟨u, saves⟩, hafter, rfl⟩ := Option.map_eq_some_iff.mp h
  refine ⟨u, saves, hafter, ?_⟩
  cases saves with
  | false => exact .inl rfl
  | true => exact .inr rfl

end Saving

section Samples

/-- Plans as what they say. -/
def plainPlans : PlansFormat (List Farm ⊕ String) where
  print := .inl
  parse := Sum.getLeft?
  isText _ := true
  blank := .inr ""
  parse_print _ := rfl
  isText_print _ := rfl
  parse_blank := rfl

/-- Every clock shows UTC. -/
def utcZones : Zones :=
  let zone : TimeZone := ⟨fun t => t / (24 * 60 * minute), fun day hour => some (utc day hour)⟩
  ⟨fun _ => none, zone⟩

/-- A pass at an hour, with some profiles open. -/
def passAt (hour : ℕ) (openIds : List String) : Pass := ⟨(utc 0 hour).toNat, openIds, utcZones, 2⟩

/-- One site a day, for some days, from ten to ten. -/
def oneSite (days : ℕ) : Spec :=
  ⟨"", ["https://a.example/"], days, (1, 1), (10, 22), (8, 25), false, 2, true⟩

/-- A profile from somewhere. -/
def profileFrom (origin : String) : Target := ⟨"p", "p", origin, none⟩

/-- The agent starts without a file, and a plan is made for a profile. -/
def begunWith (days : ℕ) (origin : String) : List (Op × Wrote (List Farm ⊕ String)) :=
  [(.load true, .done), (.create (oneSite days) [profileFrom origin] 0 "f", .done)]

end Samples

end FuryBrowser.Farming
