import FuryBrowser.InFlight

/-!
# A launch, from the lock to the browser

Opening a team profile involves three programs. The shell takes the profile's lock from the
server, remembers its token and asks the agent to launch; the agent starts the browser under
that token, and gives the lock back when the browser has closed and its profile was uploaded.
Where the launch fails, the shell gives the lock back. It stops waiting for the agent after a
while, and can lose an answer earlier.

A lock is known by its token, and no token is given twice. Colleagues take locks over, renewals
fail to arrive, and the agent ends and comes back.
-/

namespace FuryBrowser.LaunchLocks

open RowTable InFlight

universe u

/-- A profile's row in the table of locks. -/
structure Lock where
  token : ℕ
  /-- Whether it has time left. -/
  live : Bool
  deriving DecidableEq, Repr

/-- How far the agent is with a launch. -/
inductive Phase
  /-- The request has arrived. -/
  | asked
  /-- The profile is not open; it is being made ready. -/
  | preparing
  /-- The browser was started. -/
  | spawned
  /-- It is in the map of those running, and the shell was answered. -/
  | opened
  | failed
  | cut
  deriving DecidableEq, Repr

/-- More is to come. -/
def Phase.underWay : Phase → Bool
  | .asked | .preparing | .spawned => true
  | _ => false

variable {π : Type u}

/-- A launch as the agent has it. -/
structure Launch (π : Type u) where
  profile : π
  phase : Phase
  /-- Whether its browser is running. -/
  alive : Bool
  deriving DecidableEq, Repr

/-- What a lock is taken for. -/
inductive Use
  | launch
  /-- A moment: to fetch an extension through the profile's proxy, or to upload a profile. -/
  | borrow
  deriving DecidableEq, Repr

/-- How far the shell is with a command. -/
inductive Stage
  /-- It asks the agent what is open here. -/
  | asking (use : Use)
  /-- It asks the server for the lock. -/
  | acquiring (force : Bool) (use : Use)
  | granted (use : Use) (token : ℕ)
  /-- `launch_from_spec` opens what was granted and turns to the agent. -/
  | opening (token : ℕ)
  /-- It waits for the agent. -/
  | waiting (token : ℕ)
  /-- The launch failed; the lock is to be given back. -/
  | failing (token : ℕ)
  | forgetting
  /-- It does what it borrowed the lock for. -/
  | borrowed (token : ℕ)
  /-- `stop` looks for the token. -/
  | stopping
  | stopAsked (token : ℕ)
  /-- The agent is closing the browser. -/
  | stopWaits
  /-- The agent has no browser; the lock is still this machine's to return. -/
  | giving (token : ℕ)
  deriving DecidableEq, Repr

/-- What a command may begin with: `launch`, forced or not, `warm_start`,
`install_extension_from_store_team`, `upload_profile` and `stop`. -/
def begins : Stage → Bool
  | .acquiring _ .launch | .asking _ | .acquiring false .borrow | .stopping => true
  | _ => false

/-- How a request ends. -/
inductive Outcome
  | done
  /-- It is refused, or never arrives. -/
  | failed
  /-- It arrives, and the answer is lost or too late. -/
  | lost
  deriving DecidableEq, Repr

/-- What else can happen. -/
inductive Event (π : Type u)
  /-- The agent looks whether the profile is open already. -/
  | checks (token : ℕ)
  /-- A launch fails before there is a browser. -/
  | fails (token : ℕ)
  | spawns (token : ℕ)
  /-- It is put in the map, and the launch answered. -/
  | inserts (token : ℕ)
  /-- A browser closes, because it was asked to or by itself. -/
  | closes (token : ℕ)
  /-- The agent stops one that has closed, or for somebody else than the shell. -/
  | stops (profile : π)
  /-- A stop is through: the browser has gone, and the lock is given back, if it can be. -/
  | stopEnds (token : ℕ) (releases : Bool)
  /-- The agent ends, and the browsers stay. -/
  | agentEnds
  | agentStarts
  | renews (token : ℕ)
  /-- A lock runs out of time. -/
  | lapses (profile : π)
  /-- Somebody else gets the lock. -/
  | taken (profile : π)
  /-- Somebody else gives it back, or it is taken away. -/
  | dropped (profile : π)
  deriving DecidableEq, Repr

/-- The locks, the agent, and what the shell remembers. -/
structure Db (π : Type u) where
  row : π → Option Lock
  nextToken : ℕ
  /-- The shell's `locks`. -/
  locks : π → Option ℕ
  /-- The agent's launches, by token. -/
  launches : ℕ → Option (Launch π)
  /-- The agent's map of what is running. -/
  running : π → Option ℕ
  stops : List ℕ
  /-- Whether there is an agent. -/
  up : Bool
  /-- The tokens that this shell replaced or released while a browser was running under them. -/
  torn : List ℕ
  /-- The tokens that it released after a launch had failed. -/
  failed : List ℕ

/-- What happens next. -/
inductive Label (π : Type u)
  | start (profile : π) (stage : Stage)
  | runs (id : ℕ) (o : Outcome)
  /-- Something else happens. -/
  | event (e : Event π)
  | quits
  deriving DecidableEq, Repr

/-- The machine and the shell's commands under way. -/
structure World (π : Type u) where
  db : Db π
  tasks : Flights π Stage

namespace Db

variable (db : Db π) (p : π) (t : ℕ)

/-- A browser is running under a token. -/
def isOpen : Bool := (db.launches t).any fun l => l.alive

/-- A launch is under way under a token. -/
def underWay : Bool := (db.launches t).any fun l => l.phase.underWay

/-- A launch's phase. -/
def phase : Option Phase := (db.launches t).map Launch.phase

/-- A lock is only given where there is none, where it has lapsed, or by force. -/
def free (force : Bool) : Bool := (db.row p).all fun k => !k.live || force

/-- The token of a profile's lock, if a browser is running under it. -/
def tearing : List ℕ :=
  match db.row p with
  | some k => if db.isOpen k.token then [k.token] else []
  | none => []

/-- The agent gets a launch to its next phase. -/
def setLaunch (l : Launch π) : Db π :=
  { db with launches := Function.update db.launches t (some l) }

section Rows

variable [DecidableEq π]

/-- A profile's row in the table of locks changes. -/
def setLock (k : Option Lock) : Db π := { db with row := Function.update db.row p k }

/-- `acquire_lock` for this shell. -/
def acquireLock : Db π :=
  { db.setLock p (some ⟨db.nextToken, true⟩) with
    nextToken := db.nextToken + 1, torn := db.tearing p ++ db.torn }

/-- `release_lock`: by its token. -/
def releaseLock : Db π :=
  if (db.row p).map Lock.token = some t then db.setLock p none else db

/-- `release_lock` for this shell. -/
def unlock : Db π :=
  if (db.row p).map Lock.token = some t then
    { db.releaseLock p t with torn := db.tearing p ++ db.torn }
  else db

/-- The same after a launch that failed. -/
def unlockFailed : Db π :=
  if (db.row p).map Lock.token = some t then
    { db.unlock p t with failed := t :: db.failed }
  else db

/-- A stop takes the browser out of the map. -/
def stopBegins (t : ℕ) : Db π :=
  { db with running := Function.update db.running p none, stops := t :: db.stops }

/-- One step of a command. -/
def runs : Stage → Outcome → Option (Db π × Option Stage)
  | .asking use, .done =>
    if db.up then some (db, if (db.running p).isSome then none else some (.acquiring false use))
    else none
  -- An agent that does not answer has nothing open.
  | .asking use, .failed => some (db, some (.acquiring false use))
  | .acquiring force use, .done =>
    if db.free p force then some (db.acquireLock p, some (.granted use db.nextToken)) else none
  | .acquiring force _, .lost =>
    if db.free p force then some (db.acquireLock p, none) else none
  | .acquiring _ _, .failed => some (db, none)
  | .granted .launch t, .done =>
    some ({ db with locks := Function.update db.locks p (some t) }, some (.opening t))
  | .granted .borrow t, .done => some (db, some (.borrowed t))
  | .opening t, .done =>
    if db.up then some (db.setLaunch t ⟨p, .asked, false⟩, some (.waiting t))
    else some (db, some (.failing t))
  | .opening t, .failed => some (db, some (.failing t))
  | .waiting t, .done => if db.phase t = some .opened then some (db, none) else none
  | .waiting t, .failed => if db.phase t = some .failed then some (db, some (.failing t)) else none
  | .waiting t, .lost => some (db, some (.failing t))
  | .failing _, .failed => some (db, some .forgetting)
  | .failing t, _ => some (db.unlockFailed p t, some .forgetting)
  | .forgetting, .done => some ({ db with locks := Function.update db.locks p none }, none)
  | .borrowed _, .failed => some (db, none)
  | .borrowed t, _ => some (db.unlock p t, none)
  | .stopping, .done => some (db, (db.locks p).map .stopAsked)
  | .stopAsked t, .done =>
    match db.running p with
    | some t' =>
      if db.up then some (db.stopBegins p t', some .stopWaits) else some (db, some (.giving t))
    | none => some (db, some (.giving t))
  | .stopAsked _, .failed => some (db, some .forgetting)
  | .stopWaits, _ => some (db, some .forgetting)
  | .giving t, .done => some (db.unlock p t, some .forgetting)
  | .giving t, .lost => some (db.unlock p t, none)
  | .giving _, .failed => some (db, none)
  | _, _ => none

/-- The agent looks whether a profile is open: one that has closed is stopped first. -/
def checks (l : Launch π) : Option (Db π) :=
  match db.running l.profile with
  | none => some (db.setLaunch t { l with phase := .preparing })
  | some t' => if db.isOpen t' then some (db.setLaunch t { l with phase := .failed }) else none

/-- A launch that the agent does not finish. -/
def cutShort (l : Launch π) : Launch π :=
  if l.phase.underWay then { l with phase := .cut } else l

/-- What else can happen. -/
def event : Event π → Option (Db π)
  | .checks t => (db.launches t).bind fun l => if l.phase = .asked then db.checks t l else none
  | .fails t => (db.launches t).bind fun l =>
    if l.phase = .asked ∨ l.phase = .preparing then
      some (db.setLaunch t { l with phase := .failed })
    else none
  | .spawns t => (db.launches t).bind fun l =>
    if l.phase = .preparing then some (db.setLaunch t { l with phase := .spawned, alive := true })
    else none
  | .inserts t => (db.launches t).bind fun l =>
    if l.phase = .spawned then
      some { db.setLaunch t { l with phase := .opened } with
        running := Function.update db.running l.profile (some t) }
    else none
  | .closes t => (db.launches t).map fun l => db.setLaunch t { l with alive := false }
  | .stops p => (db.running p).map fun t => db.stopBegins p t
  | .stopEnds t releases => (db.launches t).bind fun l =>
    if t ∈ db.stops ∧ l.alive = false then
      let released := if releases then db.releaseLock l.profile t else db
      some { released with stops := db.stops.erase t }
    else none
  | .agentEnds =>
    some { db with launches := fun t => (db.launches t).map cutShort, running := fun _ => none,
                   stops := [], up := false }
  | .agentStarts => some { db with up := true }
  | .renews t => (db.launches t).map fun l =>
    db.setLock l.profile
      ((db.row l.profile).map fun k => if k.token = t then { k with live := true } else k)
  | .lapses p => some (db.setLock p ((db.row p).map fun k => { k with live := false }))
  | .taken p =>
    some { db.setLock p (some ⟨db.nextToken, true⟩) with nextToken := db.nextToken + 1 }
  | .dropped p => some (db.setLock p none)

end Rows

end Db

section Steps

variable [DecidableEq π]

/-- One step. -/
def step (w : World π) : Label π → Option (World π)
  | .start p stage => if begins stage then some { w with tasks := w.tasks.start p stage } else none
  | .runs id o => (lookup Flight.id w.tasks.all id).bind fun f =>
    (w.db.runs f.caller f.stage o).map fun r => ⟨r.1, w.tasks.goOn id r.2⟩
  | .event e => (w.db.event e).map fun db => { w with db := db }
  | .quits => some ⟨{ w.db with locks := fun _ => none }, .none⟩

/-- A shell and an agent that were just started: whatever locks there are, nothing is open. -/
structure Start (w : World π) : Prop where
  /-- No command is under way. -/
  tasks : w.tasks = .none
  launches : ∀ t, w.db.launches t = none
  running : ∀ p, w.db.running p = none
  stops : w.db.stops = []
  /-- The shell remembers no lock. -/
  locks : ∀ p, w.db.locks p = none
  /-- Tokens are not given twice. -/
  fresh : ∀ p, ∀ k ∈ w.db.row p, k.token < w.db.nextToken
  /-- Nothing was taken from an open browser. -/
  torn : w.db.torn = []
  failed : w.db.failed = []

end Steps

end FuryBrowser.LaunchLocks
