import FuryBrowser.AgentExit
import FuryBrowser.InFlight

/-!
# An update under an open profile

The shell looks whether a profile is open, downloads, asks the agent to stop, waits until
nothing answers any more, replaces the application and restarts. The agent serves requests all
the while, of this shell and of others. Whoever finds no agent starts one: the shell's own
polls look at a flag first, which is set when the agent is asked to stop.

An agent that ends leaves the browsers behind that it has not closed. What the shell asks before
the download is old when it has downloaded. The agent looks again, but what it answers is only
logged, and it looks at its map alone, which a launch enters last and a stop leaves first. The
flag keeps the shell's own polls from starting an agent, if they look after it was set; nobody
else looks at it.
-/

namespace FuryBrowser.UpdateInstall

open RowTable InFlight

/-- How far the shell is with a command. -/
inductive Stage
  /-- `install` asks for the status. -/
  | checking
  /-- It downloads, for as long as that takes. -/
  | downloading
  /-- It has set the flag and asks the agent to stop. -/
  | stopping
  | waiting
  /-- It hands the build to the updater. -/
  | installing
  /-- The application was replaced. -/
  | restarting
  /-- `ensure_running` looks whether an agent answers. -/
  | connecting
  /-- It was another version's and has been asked to go. -/
  | retiring
  /-- None answers; it looks at the flag. -/
  | absent
  | spawning
  deriving DecidableEq, Repr

/-- How a step of a command ends. -/
inductive Outcome
  | done
  /-- It fails, or takes too long. -/
  | failed
  /-- The agent is another version's. -/
  | other
  deriving DecidableEq, Repr

/-- The moment at which the application was replaced. -/
structure Moment where
  /-- Whether an agent was serving. -/
  serving : Bool
  /-- The browsers that were running. -/
  browsers : List AgentRuns.Browser
  deriving DecidableEq, Repr

/-- The agent, the shell and what is installed. -/
structure Db where
  /-- The agent that answers. -/
  agent : Option AgentRuns.World
  /-- The browsers of agents that have ended. -/
  orphans : List AgentRuns.Browser
  installing : Bool
  /-- When the application was replaced. -/
  replaced : List Moment
  deriving DecidableEq, Repr

/-- What happens next. -/
inductive Label
  /-- An update is to be installed, or the window polls. -/
  | start (stage : Stage)
  /-- A command of the shell goes on. -/
  | runs (id : ℕ) (o : Outcome)
  /-- Something happens in the agent: any client's request, or what follows from one. -/
  | agent (a : AgentRuns.Label)
  /-- Another client finds no agent and starts one. -/
  | clientStarts
  /-- The shell ends and starts again. -/
  | restarts
  deriving DecidableEq, Repr

/-- The agent, the shell's commands under way, and whether an agent came back between a stop and
the restart. -/
structure World where
  /-- The agent and the flag. -/
  db : Db
  tasks : Flights Unit Stage
  /-- An agent was started too early. -/
  revived : Bool

/-- What a command may begin with. -/
def begins : Stage → Bool
  | .checking | .connecting => true
  | _ => false

namespace Db

variable (db : Db)

/-- The browsers that are running. -/
def browsers : List AgentRuns.Browser := (db.agent.map AgentRuns.World.alive).getD [] ++ db.orphans

/-- A process that has ended answers no more, and closes nothing. -/
def serve (a : AgentRuns.World) : Db :=
  if a.exited then { db with agent := none, orphans := a.alive ++ db.orphans }
  else { db with agent := some a }

/-- Something happens in the agent. -/
def request (a : AgentRuns.Label) : Option Db :=
  db.agent.bind fun w => (AgentRuns.step w a).map db.serve

/-- `serve`: an agent that finds another one answering says so and ends. -/
def startAgent : Db :=
  match db.agent with
  | none => { db with agent := some AgentRuns.fresh }
  | some _ => db

/-- The profiles that the agent has open. -/
def running : List AgentRuns.Running := (db.agent.map AgentRuns.World.running).getD []

/-- One step of a command. -/
def runs : Stage → Outcome → Option (Db × Option Stage)
  -- An agent that does not answer has nothing open.
  | .checking, .done =>
    match db.request .status with
    | some db' => some (db', if db.running = [] then some .downloading else none)
    | none => some (db, some .downloading)
  | .checking, .failed => some (db, some .downloading)
  | .downloading, .done => some ({ db with installing := true }, some .stopping)
  | .downloading, .failed => some (db, none)
  | .stopping, .done =>
    match db.request (.shutdown false) with
    -- A refusal is logged.
    | some db' => some (db', if db.running = [] then some .waiting else some .installing)
    | none => some (db, some .installing)
  | .stopping, .failed => some (db, some .installing)
  | .waiting, .done => if db.agent = none then some (db, some .installing) else none
  | .waiting, .failed => some (db, some .installing)
  | .installing, .done =>
    some ({ db with replaced := ⟨db.agent.isSome, db.browsers⟩ :: db.replaced }, some .restarting)
  | .installing, .failed => some ({ db with installing := false }, some .connecting)
  | .connecting, .done => some (db, if db.agent.isSome then none else some .absent)
  | .connecting, .other =>
    if db.running = [] then
      (db.request (.shutdown false)).map fun db' => (db', some .retiring)
    else none
  | .retiring, .done => if db.agent = none then some (db, some .absent) else none
  | .retiring, .failed => some (db, none)
  | .absent, .done => some (db, if db.installing then none else some .spawning)
  | .spawning, .done => some (db.startAgent, none)
  | .spawning, .failed => some (db, none)
  | _, _ => none

end Db

/-- The agent was asked to stop for an update that is not through. -/
def stops : Stage → Bool
  | .waiting | .installing | .restarting => true
  | _ => false

/-- Some update is that far. -/
def World.stopped (w : World) : Bool := w.tasks.all.any fun f => stops f.stage

/-- An agent comes up where none was. -/
def starts (db db' : Db) : Bool := db.agent.isNone && db'.agent.isSome

/-- One step. -/
def step (w : World) : Label → Option World
  | .start stage => if begins stage then some { w with tasks := w.tasks.start () stage } else none
  | .runs id o => (lookup Flight.id w.tasks.all id).bind fun f =>
    (w.db.runs f.stage o).map fun r =>
      ⟨r.1, w.tasks.goOn id r.2, w.revived || (w.stopped && starts w.db r.1)⟩
  | .agent a => (w.db.request a).map fun db => { w with db := db }
  | .clientStarts =>
    some { w with db := w.db.startAgent,
                  revived := w.revived || (w.stopped && starts w.db w.db.startAgent) }
  | .restarts => some { w with db := { w.db with installing := false }, tasks := .none }

/-- A machine on which nothing was opened yet. -/
def fresh : World := ⟨⟨none, [], false, []⟩, .none, false⟩

/-- Where runs start. -/
def Start (w : World) : Prop := w = fresh

end FuryBrowser.UpdateInstall

namespace FuryBrowser.UpdateSafety

open GuardedRuns RowTable InFlight UpdateInstall
open AgentExit (decides Unhurried)

/-- The application was only replaced with nothing open and no agent serving, no agent has ended
under an open profile, and none came back before the restart. -/
structure Safe (w : World) : Prop where
  /-- Whenever the application was replaced. -/
  replaced : ∀ m ∈ w.db.replaced, m.serving = false ∧ m.browsers = []
  /-- The agent keeps running as long as a profile is open. -/
  orphans : w.db.orphans = []
  revived : w.revived = false

section Conditions

/-- The agent ends only with nothing open and nothing in flight, and nothing begins before it
has. -/
def Orderly (v : AgentRuns.World) (a : AgentRuns.Label) : Prop :=
  Unhurried v a ∧ (decides v a = true → v.alive = [])

/-- An update has asked for the stop, or is about to. -/
def late : Stage → Bool
  | .stopping | .waiting | .installing | .restarting => true
  | _ => false

/-- The agent does not refuse to stop and is gone in time; whoever starts one does so with the
flag down; and no update that fails takes the flag down for another. -/
def Meets (w : World) (f : Flight Unit Stage) : Outcome → Prop
  | .done =>
    match f.stage with
    | .stopping => ∀ v ∈ w.db.agent, v.running = [] ∧ Orderly v (.shutdown false)
    | .spawning => w.db.agent = none → w.db.installing = false
    | _ => True
  | .failed =>
    match f.stage with
    | .stopping | .waiting => w.db.agent = none
    | .installing => ∀ g ∈ w.tasks.all, g.id ≠ f.id → late g.stage = false
    | _ => True
  | .other => ∀ v ∈ w.db.agent, Orderly v (.shutdown false)

/-- Each step is such. -/
def Guard (w : World) : Label → Prop
  | .runs id o => ∀ f ∈ lookup Flight.id w.tasks.all id, Meets w f o
  | .agent a => ∀ v ∈ w.db.agent, Orderly v a
  | .clientStarts => w.db.agent = none → w.db.installing = false
  | _ => True

instance (v : AgentRuns.World) (a : AgentRuns.Label) : Decidable (Orderly v a) := by
  unfold Orderly
  infer_instance

instance (w : World) (f : Flight Unit Stage) (o : Outcome) : Decidable (Meets w f o) := by
  cases o <;> dsimp only [Meets]
  · split <;> infer_instance
  · split <;> infer_instance
  · infer_instance

instance (w : World) (l : Label) : Decidable (Guard w l) := by
  cases l <;> dsimp only [Guard] <;> infer_instance

end Conditions

section Agent

variable {v v' : AgentRuns.World} {a : AgentRuns.Label}

/-- What guarded runs keep of the agent. -/
structure AgentInv (v : AgentRuns.World) : Prop where
  /-- Once it is to end, nothing is in flight. -/
  exit : AgentExit.Inv v
  closed : v.exitScheduled = true → v.alive = []
  up : v.exited = false

theorem stop_alive (v : AgentRuns.World) (profile : ℕ) (reaper : Bool) :
    (v.stop profile reaper).alive = v.alive := by
  unfold AgentRuns.World.stop
  split <;> rfl

theorem freeStep_alive (hs : AgentRuns.freeStep v a = some v') : ∀ b ∈ v'.alive, b ∈ v.alive := by
  have hsame (h : v'.alive = v.alive) : ∀ b ∈ v'.alive, b ∈ v.alive := by
    rw [h]
    exact fun _ hb => hb
  cases a with
  | stop profile =>
    cases hs
    exact hsame (stop_alive v profile false)
  | browserExits child =>
    cases hs
    exact fun _ hb => (mem_deleteWhere.mp hb).1
  | launch profile requested =>
    refine hsame ?_
    simp only [AgentRuns.freeStep] at hs
    repeat' split at hs
    all_goals
      cases hs
      cases requested <;> rfl
  | reaperStops =>
    refine hsame ?_
    simp only [AgentRuns.freeStep] at hs
    repeat' split at hs
    · cases hs
    · cases hs
      exact stop_alive _ _ true
    · cases hs
  | shutdown whenIdle =>
    refine hsame ?_
    cases whenIdle <;> simp only [AgentRuns.freeStep] at hs <;> split at hs <;> cases hs <;> rfl
  | _ =>
    refine hsame ?_
    simp only [AgentRuns.freeStep] at hs
    repeat' split at hs
    all_goals
      cases hs
      try rfl

theorem opStep_alive {o : AgentRuns.Op} (hquiet : o.task.inFlight = false)
    (hs : AgentRuns.opStep v o a = some v') : v'.alive = v.alive := by
  have htask : o.task = .dirWork := by
    cases ht : o.task <;> first | rfl | (rw [ht] at hquiet; cases hquiet)
  cases a <;> simp only [AgentRuns.opStep, htask, Option.some.injEq, reduceCtorEq] at hs
  exact hs ▸ rfl

/-- An orderly agent has closed everything before it ends. -/
theorem step_agentInv (h : AgentInv v) (hg : Orderly v a) (hs : AgentRuns.step v a = some v') :
    AgentExit.Inv v' ∧ (v'.exitScheduled = true → v'.alive = []) := by
  refine ⟨AgentExit.inv_step h.exit hg.1 hs, fun hx => ?_⟩
  unfold AgentRuns.step at hs
  rw [if_neg (by rw [h.up]; exact Bool.false_ne_true)] at hs
  split at hs
  · obtain ⟨o, ho, hs⟩ := Option.bind_eq_some_iff.mp hs
    have hscheduled : v.exitScheduled = true := (AgentExit.opStep_exit hs).1 ▸ hx
    rw [opStep_alive (h.exit.quiet hscheduled o (lookup_some ho).1) hs]
    exact h.closed hscheduled
  · have hold : v.alive = [] :=
      ((AgentExit.freeStep_exit hs).1 hx).elim h.closed hg.2
    have hsub := freeStep_alive hs
    rw [hold] at hsub
    exact List.eq_nil_iff_forall_not_mem.mpr fun b hb => List.not_mem_nil (hsub b hb)

end Agent

section Runs

variable {w w' : World} {db' : Db} {f : Flight Unit Stage} {st : Option Stage}

/-- The application is about to be replaced, or has been. -/
def past : Stage → Bool
  | .installing | .restarting => true
  | _ => false

theorem late_of_past {stage : Stage} (h : past stage = true) : late stage = true := by
  cases stage <;> first | rfl | cases h

/-- What guarded runs keep. -/
structure Inv (w : World) : Prop where
  agent : ∀ v, w.db.agent = some v → AgentInv v
  /-- The flag is up from the stop on. -/
  flag : ∀ f ∈ w.tasks.all, late f.stage = true → w.db.installing = true
  /-- When the application is replaced the agent has gone. -/
  gone : ∀ f ∈ w.tasks.all, past f.stage = true → w.db.agent = none
  /-- What was replaced so far. -/
  safe : Safe w

theorem Inv.request {a : AgentRuns.Label} (hw : Inv w) (hg : ∀ v ∈ w.db.agent, Orderly v a)
    (hs : w.db.request a = some db') : Inv ⟨db', w.tasks, w.revived⟩ := by
  obtain ⟨v, hv, hs⟩ := Option.bind_eq_some_iff.mp hs
  obtain ⟨v', hstep, rfl⟩ := Option.map_eq_some_iff.mp hs
  have hinv := hw.agent v hv
  obtain ⟨hexit, hclosed⟩ := step_agentInv hinv (hg v hv) hstep
  have hgone (g : Flight Unit Stage) (hg : g ∈ w.tasks.all) (hp : past g.stage = true) : False := by
    rw [hw.gone g hg hp] at hv
    cases hv
  unfold Db.serve
  split
  next hexited =>
    have hempty : v'.alive = [] := hclosed (hexit.decided hexited)
    refine ⟨fun _ h => (by cases h), hw.flag, fun g hg hp => (hgone g hg hp).elim,
      ⟨hw.safe.replaced, ?_, hw.safe.revived⟩⟩
    change v'.alive ++ w.db.orphans = []
    rw [hempty, hw.safe.orphans]
    rfl
  next hexited =>
    refine ⟨fun v'' h => ?_, hw.flag, fun g hg hp => (hgone g hg hp).elim,
      ⟨hw.safe.replaced, hw.safe.orphans, hw.safe.revived⟩⟩
    cases h
    exact ⟨hexit, hclosed, by simpa using hexited⟩

theorem Inv.goOn (hw : Inv w) (hf : f ∈ w.tasks.all)
    (hself : ∀ stage, st = some stage → (late stage = true → w.db.installing = true) ∧
      (past stage = true → w.db.agent = none)) :
    Inv ⟨w.db, w.tasks.goOn f.id st, w.revived⟩ := by
  refine ⟨hw.agent, fun g hg hl => ?_, fun g hg hp => ?_,
    ⟨hw.safe.replaced, hw.safe.orphans, hw.safe.revived⟩⟩
  · rcases Flights.mem_goOn hf hg with ⟨hin, _⟩ | ⟨stage, hst, rfl⟩
    · exact hw.flag g hin hl
    · exact (hself stage hst).1 hl
  · rcases Flights.mem_goOn hf hg with ⟨hin, _⟩ | ⟨stage, hst, rfl⟩
    · exact hw.gone g hin hp
    · exact (hself stage hst).2 hp

/-- From the stop to the restart the flag is up. -/
theorem Inv.stopped (hw : Inv w) (hs : w.stopped = true) : w.db.installing = true := by
  obtain ⟨f, hf, hstops⟩ := List.any_eq_true.mp hs
  refine hw.flag f hf ?_
  cases hstage : f.stage <;> rw [hstage] at hstops <;> first | rfl | cases hstops

theorem revived_same (h : starts w.db db' = false) :
    (w.revived || (w.stopped && starts w.db db')) = w.revived := by
  rw [h, Bool.and_false, Bool.or_false]

theorem starts_same (h : db'.agent = w.db.agent) : starts w.db db' = false := by
  unfold starts
  rw [h]
  cases w.db.agent <;> rfl

/-- An agent that was there is not started. -/
theorem starts_request {a : AgentRuns.Label} (hs : w.db.request a = some db') :
    starts w.db db' = false := by
  obtain ⟨v, hv, -⟩ := Option.bind_eq_some_iff.mp hs
  unfold starts
  rw [hv]
  rfl

/-- A request to stop is always answered, once there is an agent. -/
theorem request_ne_none {v : AgentRuns.World} {a : AgentRuns.Label} (hup : v.exited = false)
    (hv : w.db.agent = some v) (ha : a = .shutdown false ∨ a = .status) :
    w.db.request a ≠ none := by
  unfold Db.request AgentRuns.step
  rw [hv, Option.bind_some, hup]
  rcases ha with rfl | rfl <;> simp [AgentRuns.Label.opId, AgentRuns.freeStep]
  split <;> simp

/-- An agent is started with the flag down. -/
theorem Inv.startAgent (hw : Inv w) (hg : w.db.agent = none → w.db.installing = false) :
    Inv ⟨w.db.startAgent, w.tasks, w.revived || (w.stopped && starts w.db w.db.startAgent)⟩ := by
  unfold Db.startAgent
  split
  next hnone =>
    have hdown := hg hnone
    have hstopped : w.stopped = false := by
      cases hs : w.stopped with
      | false => rfl
      | true => rw [hw.stopped hs] at hdown; cases hdown
    have hearly (f : Flight Unit Stage) (hf : f ∈ w.tasks.all) : late f.stage = false := by
      cases hl : late f.stage with
      | false => rfl
      | true => rw [hw.flag f hf hl] at hdown; cases hdown
    rw [hstopped, Bool.false_and, Bool.or_false]
    refine ⟨fun v hv => ?_, hw.flag, fun f hf hp => ?_,
      ⟨hw.safe.replaced, hw.safe.orphans, hw.safe.revived⟩⟩
    · cases hv
      exact ⟨AgentExit.inv_fresh, fun _ => rfl, rfl⟩
    · have hlate := hearly f hf
      rw [late_of_past hp] at hlate
      cases hlate
  next =>
    rw [revived_same (starts_same rfl)]
    exact hw

/-- The build is handed to the updater. -/
theorem Inv.replace (hw : Inv w) (hf : f ∈ w.tasks.all) (hstage : f.stage = .installing) :
    Inv ⟨{ w.db with replaced := ⟨w.db.agent.isSome, w.db.browsers⟩ :: w.db.replaced },
      w.tasks.goOn f.id (some .restarting), w.revived⟩ := by
  have hnone := hw.gone f hf (by rw [hstage]; rfl)
  have hflag := hw.flag f hf (by rw [hstage]; rfl)
  have hgoes : Inv ⟨w.db, w.tasks.goOn f.id (some .restarting), w.revived⟩ := by
    refine hw.goOn hf fun stage hst => ?_
    cases hst
    exact ⟨fun _ => hflag, fun _ => hnone⟩
  refine ⟨hgoes.agent, hgoes.flag, hgoes.gone, ⟨fun m hm => ?_, hw.safe.orphans, hw.safe.revived⟩⟩
  rcases List.mem_cons.mp hm with rfl | hm
  · have hbrowsers : w.db.browsers = [] := by
      unfold Db.browsers
      rw [hnone, hw.safe.orphans]
      rfl
    exact ⟨by rw [hnone]; rfl, hbrowsers⟩
  · exact hw.safe.replaced m hm

/-- It cannot be installed, and no other update is that far. -/
theorem Inv.fail (hw : Inv w) (hf : f ∈ w.tasks.all)
    (hg : ∀ g ∈ w.tasks.all, g.id ≠ f.id → late g.stage = false) :
    Inv ⟨{ w.db with installing := false }, w.tasks.goOn f.id (some .connecting), w.revived⟩ := by
  have hearly (g : Flight Unit Stage) (hg' : g ∈ (w.tasks.goOn f.id (some .connecting)).all) :
      late g.stage = false := by
    rcases Flights.mem_goOn hf hg' with ⟨hin, hne⟩ | ⟨stage, hst, rfl⟩
    · exact hg g hin hne
    · cases hst
      rfl
  refine ⟨hw.agent, fun g hg' hl => ?_, fun g hg' hp => ?_,
    ⟨hw.safe.replaced, hw.safe.orphans, hw.safe.revived⟩⟩
  · rw [hearly g hg'] at hl
    cases hl
  · have hlate := hearly g hg'
    rw [late_of_past hp] at hlate
    cases hlate

/-- The build is there, and the flag is raised. -/
theorem Inv.raise (hw : Inv w) (hf : f ∈ w.tasks.all) :
    Inv ⟨{ w.db with installing := true }, w.tasks.goOn f.id (some .stopping), w.revived⟩ := by
  refine ⟨hw.agent, fun _ _ _ => rfl, fun g hg hp => ?_,
    ⟨hw.safe.replaced, hw.safe.orphans, hw.safe.revived⟩⟩
  rcases Flights.mem_goOn hf hg with ⟨hin, _⟩ | ⟨stage, hst, rfl⟩
  · exact hw.gone g hin hp
  · cases hst
    cases hp

/-- A command that goes on to something early. -/
theorem Inv.early (hw : Inv w) (hf : f ∈ w.tasks.all)
    (hst : ∀ stage, st = some stage → late stage = false ∧ past stage = false) :
    Inv ⟨w.db, w.tasks.goOn f.id st, w.revived⟩ := by
  refine hw.goOn hf fun stage hs => ?_
  obtain ⟨hlate, hpast⟩ := hst stage hs
  refine ⟨fun h => ?_, fun h => ?_⟩
  · rw [hlate] at h
    cases h
  · rw [hpast] at h
    cases h

/-- A command that goes on with the flag up, to the replacement once the agent has gone. -/
theorem Inv.on {stage : Stage} (hw : Inv w) (hf : f ∈ w.tasks.all) (hl : late f.stage = true)
    (hp : past stage = true → w.db.agent = none) :
    Inv ⟨w.db, w.tasks.goOn f.id (some stage), w.revived⟩ := by
  refine hw.goOn hf fun stage' hst => ?_
  cases hst
  exact ⟨fun _ => hw.flag f hf hl, hp⟩

/-- Only a command that starts an agent brings one up. -/
theorem runs_starts {stage : Stage} {o : Outcome} (h : w.db.runs stage o = some (db', st))
    (hspawn : stage ≠ .spawning) : starts w.db db' = false := by
  have hagent : db'.agent = w.db.agent ∨ ∃ a, w.db.request a = some db' := by
    cases stage with
    | checking | stopping =>
      cases o with
      | done =>
        dsimp only [Db.runs] at h
        split at h
        next hrequest =>
          cases h
          exact .inr ⟨_, hrequest⟩
        next =>
          cases h
          exact .inl rfl
      | failed =>
        cases h
        exact .inl rfl
      | other => cases h
    | connecting =>
      cases o with
      | done =>
        cases h
        exact .inl rfl
      | failed => cases h
      | other =>
        obtain ⟨_, h⟩ := Option.ite_none_right_eq_some.mp h
        obtain ⟨db'', hrequest, heq⟩ := Option.map_eq_some_iff.mp h
        cases heq
        exact .inr ⟨_, hrequest⟩
    | waiting | retiring =>
      cases o with
      | done =>
        obtain ⟨_, h⟩ := Option.ite_none_right_eq_some.mp h
        cases h
        exact .inl rfl
      | failed =>
        cases h
        exact .inl rfl
      | other => cases h
    | downloading | installing | restarting | absent =>
      cases o <;> cases h <;> exact .inl rfl
    | spawning => exact absurd rfl hspawn
  rcases hagent with hsame | ⟨a, hrequest⟩
  · exact starts_same hsame
  · exact starts_request hrequest

theorem spawn_inv {o : Outcome} (hw : Inv w) (hf : f ∈ w.tasks.all) (hstage : f.stage = .spawning)
    (hg : Meets w f o) (h : w.db.runs f.stage o = some (db', st)) :
    Inv ⟨db', w.tasks.goOn f.id st, w.revived || (w.stopped && starts w.db db')⟩ := by
  rw [hstage] at h
  cases o with
  | done =>
    simp only [Meets, hstage] at hg
    cases h
    exact (hw.startAgent hg).early hf fun _ hst => (by cases hst)
  | failed =>
    cases h
    rw [revived_same (starts_same rfl)]
    exact hw.early hf fun _ hst => (by cases hst)
  | other => cases h

theorem runs_inv {o : Outcome} (hw : Inv w) (hf : f ∈ w.tasks.all) (hg : Meets w f o)
    (h : w.db.runs f.stage o = some (db', st)) :
    Inv ⟨db', w.tasks.goOn f.id st, w.revived || (w.stopped && starts w.db db')⟩ := by
  by_cases hspawn : f.stage = .spawning
  · exact spawn_inv hw hf hspawn hg h
  rw [revived_same (runs_starts h hspawn)]
  cases hstage : f.stage with
  | checking =>
    rw [hstage] at h
    cases o with
    | done =>
      dsimp only [Db.runs] at h
      have hearly : ∀ stage, (if w.db.running = [] then some Stage.downloading else none) =
          some stage → late stage = false ∧ past stage = false := by
        intro stage hst
        obtain ⟨_, hst⟩ := Option.ite_none_right_eq_some.mp hst
        cases hst
        exact ⟨rfl, rfl⟩
      split at h
      next db'' hrequest =>
        cases h
        refine (hw.request (fun v _ => ?_) hrequest).early hf hearly
        exact ⟨⟨fun hd => (by cases hd), fun _ t ht => (by cases ht)⟩, fun hd => (by cases hd)⟩
      next =>
        cases h
        exact hw.early hf fun stage hst => by cases hst; exact ⟨rfl, rfl⟩
    | failed =>
      cases h
      exact hw.early hf fun stage hst => by cases hst; exact ⟨rfl, rfl⟩
    | other => cases h
  | downloading =>
    rw [hstage] at h
    cases o with
    | done =>
      cases h
      exact hw.raise hf
    | failed =>
      cases h
      exact hw.early hf fun _ hst => (by cases hst)
    | other => cases h
  | stopping =>
    rw [hstage] at h
    have hlate : late f.stage = true := by rw [hstage]; rfl
    cases o with
    | done =>
      simp only [Meets, hstage] at hg
      dsimp only [Db.runs] at h
      split at h
      next db'' hrequest =>
        cases h
        have hempty : w.db.running = [] := by
          unfold Db.running
          cases hv : w.db.agent with
          | none => rfl
          | some v => exact (hg v hv).1
        have hnext := hw.request (fun v hv => (hg v hv).2) hrequest
        rw [if_pos hempty]
        exact hnext.on hf hlate fun hp => (by cases hp)
      next hrequest =>
        cases h
        refine hw.on hf hlate fun _ => ?_
        cases hv : w.db.agent with
        | none => rfl
        | some v => exact absurd hrequest (request_ne_none (hw.agent v hv).up hv (.inl rfl))
    | failed =>
      simp only [Meets, hstage] at hg
      cases h
      exact hw.on hf hlate fun _ => hg
    | other => cases h
  | waiting =>
    rw [hstage] at h
    have hlate : late f.stage = true := by rw [hstage]; rfl
    cases o with
    | done =>
      obtain ⟨hnone, h⟩ := Option.ite_none_right_eq_some.mp h
      cases h
      exact hw.on hf hlate fun _ => hnone
    | failed =>
      simp only [Meets, hstage] at hg
      cases h
      exact hw.on hf hlate fun _ => hg
    | other => cases h
  | installing =>
    rw [hstage] at h
    cases o with
    | done =>
      cases h
      exact hw.replace hf hstage
    | failed =>
      simp only [Meets, hstage] at hg
      cases h
      exact hw.fail hf hg
    | other => cases h
  | restarting =>
    rw [hstage] at h
    cases o <;> cases h
  | connecting =>
    rw [hstage] at h
    cases o with
    | done =>
      cases h
      refine hw.early hf fun stage hst => ?_
      obtain ⟨_, hst⟩ := Option.ite_none_left_eq_some.mp hst
      cases hst
      exact ⟨rfl, rfl⟩
    | other =>
      obtain ⟨_, h⟩ := Option.ite_none_right_eq_some.mp h
      obtain ⟨db'', hrequest, heq⟩ := Option.map_eq_some_iff.mp h
      cases heq
      exact (hw.request hg hrequest).early hf fun stage hst => by cases hst; exact ⟨rfl, rfl⟩
    | failed => cases h
  | retiring =>
    rw [hstage] at h
    cases o with
    | done =>
      obtain ⟨_, h⟩ := Option.ite_none_right_eq_some.mp h
      cases h
      exact hw.early hf fun stage hst => by cases hst; exact ⟨rfl, rfl⟩
    | failed =>
      cases h
      exact hw.early hf fun _ hst => (by cases hst)
    | other => cases h
  | absent =>
    rw [hstage] at h
    cases o <;> cases h
    refine hw.early hf fun stage hst => ?_
    obtain ⟨_, hst⟩ := Option.ite_none_left_eq_some.mp hst
    cases hst
    exact ⟨rfl, rfl⟩
  | spawning => exact absurd hstage hspawn

theorem step_inv : Preserved step Guard Inv := by
  intro w l w' hw hg hs
  cases l with
  | start stage =>
    obtain ⟨hbegins, hs⟩ := Option.ite_none_right_eq_some.mp hs
    cases hs
    have hearly : late stage = false ∧ past stage = false := by
      cases stage <;> first | cases hbegins; done | exact ⟨rfl, rfl⟩
    refine ⟨hw.agent, fun f hf hl => ?_, fun f hf hp => ?_,
      ⟨hw.safe.replaced, hw.safe.orphans, hw.safe.revived⟩⟩
    · rcases Flights.mem_start.mp hf with rfl | hf
      · rw [hearly.1] at hl
        cases hl
      · exact hw.flag f hf hl
    · rcases Flights.mem_start.mp hf with rfl | hf
      · rw [hearly.2] at hp
        cases hp
      · exact hw.gone f hf hp
  | runs id o =>
    obtain ⟨f, hlookup, hs⟩ := Option.bind_eq_some_iff.mp hs
    obtain ⟨⟨db', st⟩, hruns, rfl⟩ := Option.map_eq_some_iff.mp hs
    obtain ⟨hf, rfl⟩ := lookup_some hlookup
    exact runs_inv hw hf (hg f hlookup) hruns
  | agent a =>
    obtain ⟨db', hrequest, rfl⟩ := Option.map_eq_some_iff.mp hs
    exact hw.request hg hrequest
  | clientStarts =>
    cases hs
    exact hw.startAgent hg
  | restarts =>
    cases hs
    exact ⟨hw.agent, List.forall_mem_nil _, List.forall_mem_nil _, hw.safe.replaced,
      hw.safe.orphans, hw.safe.revived⟩

/-- In every run in which the agent ends only with nothing open and nothing in flight, does not
refuse an update's stop and is gone in time, nobody starts one with the flag up, and no update
that fails takes the flag down for another, the application is only replaced with nothing open
and no agent serving, no agent ends under an open profile, and none comes back before the
restart. -/
theorem update_under_nothing_open {w : World} (hr : Reached Start step Guard w) :
    Safe w := by
  refine (hr.invariant Inv (fun w hw => ?_) step_inv).safe
  cases hw
  exact ⟨fun _ h => (by cases h), List.forall_mem_nil _, List.forall_mem_nil _,
    List.forall_mem_nil _, rfl, rfl⟩

end Runs

section Examples

/-- A poll finds no agent and starts one. -/
def pollStarts (id : ℕ) : List Label :=
  [.start .connecting, .runs id .done, .runs id .done, .runs id .done]

/-- A profile is opened. -/
def opens : List Label :=
  [.agent (.launch 1 true), .agent (.fetched 0 false), .agent (.spawned 0), .agent (.registered 0)]

/-- It is closed again before the update stops the agent, and a poll comes in between. -/
def closedInTime : List Label :=
  pollStarts 0 ++ opens ++ [.start .checking, .runs 1 .done, .start .checking, .agent (.stop 1),
    .agent (.closed 1 false), .runs 2 .done, .runs 2 .done, .runs 2 .done, .agent .exit,
    .runs 2 .done, .start .connecting, .runs 3 .done, .runs 3 .done, .runs 2 .done,
    .restarts] ++ pollStarts 0

/-- The application is replaced once, with nothing open and no agent. -/
theorem update_under_nothing_open_closedInTime : ∃ w, run step fresh closedInTime = some w ∧
    w.db.replaced = [⟨false, []⟩] ∧ Safe w := by
  have hrun : (run step fresh closedInTime).map (fun w => w.db.replaced) =
      some [⟨false, []⟩] := by decide
  obtain ⟨w, h, hreplaced⟩ := Option.map_eq_some_iff.mp hrun
  have hstart : Start fresh := rfl
  exact ⟨w, h, hreplaced, update_under_nothing_open
    ((Reached.start hstart).run closedInTime (by decide) h)⟩

/-- A profile is opened during the download. The agent refuses to stop, and the application is
replaced. -/
theorem replaced_under_open_profile :
    ¬∀ w : World, Reached Start step anyStep w → Safe w := by
  intro hall
  have hrun : (run step fresh (pollStarts 0 ++ [.start .checking, .runs 1 .done] ++ opens ++
      [.runs 1 .done, .runs 1 .done, .runs 1 .done])).map (fun w => w.db.replaced) =
        some [⟨true, [⟨0, 1⟩]⟩] := by decide
  obtain ⟨w, h, hreplaced⟩ := Option.map_eq_some_iff.mp hrun
  have hmem : (⟨true, [⟨0, 1⟩]⟩ : Moment) ∈ w.db.replaced := by
    rw [hreplaced]
    exact List.mem_cons_self
  have hstart : Start fresh := rfl
  have hserving := ((hall w ((Reached.start hstart).run_any _ h)).replaced _ hmem).1
  cases hserving

end Examples

end FuryBrowser.UpdateSafety
