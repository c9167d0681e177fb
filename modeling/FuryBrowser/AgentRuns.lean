import FuryBrowser.GuardedRuns
import FuryBrowser.RowTable

/-!
# Requests to one agent

An agent serves requests concurrently. A launch reads the map of running
browsers at its start and writes it at its end; a stop takes the entry out of
the map first and packs and uploads afterwards. The reaper stops the entries
whose browser is gone, one after another, and then may end the process.

The model has one operation in flight for each launch, stop and directory
request, a browser for each live child process, and the flags of the three ways
out of the process. Every await point is a step.
-/

namespace FuryBrowser.AgentRuns

open GuardedRuns RowTable

/-- An entry of the `running` map. -/
structure Running where
  profile : ℕ
  child : ℕ
  deriving DecidableEq, Repr

/-- A live browser. -/
structure Browser where
  child : ℕ
  /-- The profile whose directory it has open. -/
  profile : ℕ
  deriving DecidableEq, Repr

/-- How far an operation has come. A stop inside a launch goes on with it. -/
inductive Task where
  /-- A launch that found the entry of a dead browser. -/
  | tidying
  /-- A launch before its pull: exit check, directory, request for the bundle. -/
  | preparing
  /-- A launch unpacking the server's bundle. -/
  | unpacking
  /-- A launch about to spawn. -/
  | spawning
  /-- A launch whose browser is up and not yet in the map. -/
  | registering (child : ℕ)
  /-- A stop waiting for its browser. -/
  | closing (child : ℕ) (thenLaunch : Bool)
  /-- A stop packing the directory. -/
  | packing (thenLaunch : Bool)
  /-- A stop uploading what it packed, and giving the lock back. -/
  | pushing (thenLaunch : Bool)
  /-- A request that reads or trims the directory: pack, upload, export, trim. -/
  | dirWork
  deriving DecidableEq, Repr

/-- An operation in flight. -/
structure Op where
  id : ℕ
  /-- The profile it is about. -/
  profile : ℕ
  task : Task
  /-- Whether the reaper started it and waits for it. -/
  reaper : Bool
  deriving DecidableEq, Repr

/-- The browser an operation has in its hands. -/
def Task.child : Task → Option ℕ
  | .registering child => some child
  | .closing child _ => some child
  | _ => none

/-- Whether an operation packs, unpacks or trims the directory. -/
def Task.touches : Task → Bool
  | .unpacking => true
  | .packing _ => true
  | .dirWork => true
  | _ => false

/-- Whether an operation is a launch or a stop. -/
def Task.inFlight : Task → Bool
  | .dirWork => false
  | _ => true

/-- The agent process. -/
structure World where
  /-- The map of running browsers. -/
  running : List Running
  alive : List Browser
  /-- The operations in flight. -/
  ops : List Op
  /-- The reaper's list of entries to stop, while it works through one. -/
  reaping : Option (List ℕ)
  /-- Whether a core is being downloaded. -/
  downloading : Bool
  exitWhenIdle : Bool
  /-- An exit has been decided and is about to happen. -/
  exitScheduled : Bool
  exited : Bool
  nextChild : ℕ
  nextOp : ℕ
  deriving DecidableEq, Repr

/-- An agent that has just started. -/
def fresh : World := ⟨[], [], [], none, false, false, false, false, 0, 0⟩

/-- Whether a process is a live browser. -/
def World.isAlive (w : World) (child : ℕ) : Bool := w.alive.any fun b => b.child = child

/-- The entry of a profile. -/
def World.entry (w : World) (profile : ℕ) : Option Running :=
  lookup Running.profile w.running profile

/-- `idle`: no entry with a live browser and no download. -/
def World.idle (w : World) : Bool :=
  (w.running.all fun e => !w.isAlive e.child) && !w.downloading

/-- Start an operation. -/
def World.start (w : World) (profile : ℕ) (task : Task) (reaper : Bool) : World :=
  { w with ops := ⟨w.nextOp, profile, task, reaper⟩ :: w.ops, nextOp := w.nextOp + 1 }

/-- Move an operation on. -/
def World.move (w : World) (id : ℕ) (task : Task) : World :=
  { w with ops := updateWhere (fun o => o.id = id) (fun o => { o with task := task }) w.ops }

/-- End an operation. -/
def World.finish (w : World) (id : ℕ) : World :=
  { w with ops := deleteWhere (fun o => o.id = id) w.ops }

/-- Take a profile's entry out of the map. -/
def World.unregister (w : World) (profile : ℕ) : World :=
  { w with running := deleteWhere (fun e => e.profile = profile) w.running }

/-- `running.insert`: the profile's old entry, if any, is dropped. -/
def World.register (w : World) (profile child : ℕ) : World :=
  { w with
    running := ⟨profile, child⟩ ::
      deleteWhere (fun e => e.profile = profile) w.running }

/-- What can happen next. -/
inductive Label where
  /-- A launch is requested, or started by the agent itself. -/
  | launch (profile : ℕ) (requested : Bool)
  | stop (profile : ℕ)
  /-- A pack, upload, export or trim is requested. -/
  | dirWork (profile : ℕ)
  /-- A launch takes the dead browser's entry out of the map. -/
  | tidy (id : ℕ)
  /-- A launch has its server's answer, and unpacks it or not. -/
  | fetched (id : ℕ) (unpacks : Bool)
  | unpacked (id : ℕ)
  /-- A launch spawns its browser. -/
  | spawned (id : ℕ)
  /-- A launch puts its browser into the map and ends. -/
  | registered (id : ℕ)
  | launchFails (id : ℕ)
  /-- A stop has seen its browser go, or killed it. -/
  | closed (id : ℕ) (hasServer : Bool)
  /-- A stop fails while it waits: the process could not be asked. -/
  | closeFails (id : ℕ)
  /-- A stop has packed, or failed to. -/
  | packed (id : ℕ)
  /-- A stop has uploaded, or failed to, and given the lock back. -/
  | pushed (id : ℕ)
  /-- A directory request is done. -/
  | workDone (id : ℕ)
  /-- A browser ends by itself. -/
  | browserExits (child : ℕ)
  /-- The reaper lists the entries whose browser is gone. -/
  | reaperLists
  /-- The reaper stops the next entry of its list. -/
  | reaperStops
  /-- The reaper is through its list and decides whether to exit. -/
  | reaperDecides
  /-- The `status` request: somebody uses the agent again. -/
  | status
  /-- The shell asks the agent to stop, now or once it is idle. -/
  | shutdown (whenIdle : Bool)
  /-- A download of the core starts or ends. -/
  | download (on : Bool)
  /-- A client goes away; its request goes on. -/
  | disconnect
  /-- The scheduled exit happens. -/
  | exit
  deriving DecidableEq, Repr

/-- The operation a label moves on. -/
def World.op (w : World) (id : ℕ) : Option Op := lookup Op.id w.ops id

/-- `stop`, from taking the entry out of the map. -/
def World.stop (w : World) (profile : ℕ) (reaper : Bool) : World :=
  match w.entry profile with
  | none => w
  | some e => (w.unregister profile).start profile (.closing e.child false) reaper

/-- What follows a stop: the end, or the launch it was part of. -/
def World.stopDone (w : World) (id : ℕ) (thenLaunch : Bool) : World :=
  if thenLaunch then w.move id .preparing else w.finish id

/-- One step of an operation in flight. -/
def opStep (w : World) (o : Op) : Label → Option World
  | .tidy _ =>
    match o.task with
    | .tidying =>
      match w.entry o.profile with
      | none => some (w.move o.id .preparing)
      | some e => some ((w.unregister o.profile).move o.id (.closing e.child true))
    | _ => none
  | .fetched _ unpacks =>
    match o.task with
    | .preparing => some (w.move o.id (if unpacks then .unpacking else .spawning))
    | _ => none
  | .unpacked _ =>
    match o.task with
    | .unpacking => some (w.move o.id .spawning)
    | _ => none
  | .spawned _ =>
    match o.task with
    | .spawning =>
      some { w.move o.id (.registering w.nextChild) with
        alive := ⟨w.nextChild, o.profile⟩ :: w.alive
        nextChild := w.nextChild + 1 }
    | _ => none
  | .registered _ =>
    match o.task with
    | .registering child => some ((w.register o.profile child).finish o.id)
    | _ => none
  | .launchFails _ =>
    match o.task with
    | .preparing => some (w.finish o.id)
    | .unpacking => some (w.finish o.id)
    | .spawning => some (w.finish o.id)
    | .registering _ => some (w.finish o.id)
    | _ => none
  | .closed _ hasServer =>
    match o.task with
    | .closing child thenLaunch =>
      let w' := { w with alive := deleteWhere (fun b => b.child = child) w.alive }
      some (if hasServer then w'.move o.id (.packing thenLaunch)
        else w'.stopDone o.id thenLaunch)
    | _ => none
  | .closeFails _ =>
    match o.task with
    | .closing _ thenLaunch => some (w.stopDone o.id thenLaunch)
    | _ => none
  | .packed _ =>
    match o.task with
    | .packing thenLaunch => some (w.move o.id (.pushing thenLaunch))
    | _ => none
  | .pushed _ =>
    match o.task with
    | .pushing thenLaunch => some (w.stopDone o.id thenLaunch)
    | _ => none
  | .workDone _ =>
    match o.task with
    | .dirWork => some (w.finish o.id)
    | _ => none
  | _ => none

/-- The operation a label is about, for the labels of operations in flight. -/
def Label.opId : Label → Option ℕ
  | .tidy id => some id
  | .fetched id _ => some id
  | .unpacked id => some id
  | .spawned id => some id
  | .registered id => some id
  | .launchFails id => some id
  | .closed id _ => some id
  | .closeFails id => some id
  | .packed id => some id
  | .pushed id => some id
  | .workDone id => some id
  | _ => none

/-- A request, the reaper or the world outside. -/
def freeStep (w : World) : Label → Option World
  | .launch profile requested =>
    let w' := if requested then { w with exitWhenIdle := false } else w
    match w.entry profile with
    | none => some (w'.start profile .preparing false)
    | some e =>
      -- "this profile is already open"
      if w.isAlive e.child then some w' else some (w'.start profile .tidying false)
  | .stop profile => some (w.stop profile false)
  | .dirWork profile =>
    match w.entry profile with
    | none => some (w.start profile .dirWork false)
    | some _ => some w
  | .browserExits child =>
    some { w with alive := deleteWhere (fun b => b.child = child) w.alive }
  | .reaperLists =>
    match w.reaping with
    | none => some { w with
        reaping := some
          ((w.running.filter fun e => !w.isAlive e.child).map Running.profile) }
    | some _ => none
  | .reaperStops =>
    if w.ops.any Op.reaper then none
    else match w.reaping with
      | some (profile :: rest) => some ({ w with reaping := some rest }.stop profile true)
      | _ => none
  | .reaperDecides =>
    if w.ops.any Op.reaper then none
    else match w.reaping with
      | some [] => some { w with
          reaping := none
          exitScheduled := w.exitScheduled || (w.exitWhenIdle && w.idle) }
      | _ => none
  | .status => some { w with exitWhenIdle := false }
  | .shutdown true =>
    if w.idle then some { w with exitScheduled := true }
    else some { w with exitWhenIdle := true }
  | .shutdown false =>
    if w.running = [] then some { w with exitScheduled := true } else some w
  | .download on => some { w with downloading := on }
  | .disconnect => some w
  | .exit => if w.exitScheduled then some { w with exited := true } else none
  | _ => none

/-- The profile and the operation a request starts with when it passes its check. -/
def begins (w : World) : Label → Option (ℕ × Task)
  | .launch profile _ =>
    match w.entry profile with
    | none => some (profile, .preparing)
    | some e => if w.isAlive e.child then none else some (profile, .tidying)
  | .stop profile => (w.entry profile).map fun e => (profile, .closing e.child false)
  | .dirWork profile => if (w.entry profile).isSome then none else some (profile, .dirWork)
  | .reaperStops =>
    match w.reaping with
    | some (profile :: _) => (w.entry profile).map fun e => (profile, .closing e.child false)
    | _ => none
  | _ => none

/-- One step of the agent. A process that has ended takes none. -/
def step (w : World) (a : Label) : Option World :=
  if w.exited then none
  else match a.opId with
    | some id => (w.op id).bind fun o => opStep w o a
    | none => freeStep w a

/-- The agent has just started. -/
def init (w : World) : Prop := w = fresh

end FuryBrowser.AgentRuns
