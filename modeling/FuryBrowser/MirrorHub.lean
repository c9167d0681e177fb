import FuryBrowser.GuardedRuns
import FuryBrowser.TextBytes

/-!
# Synchronised windows

What is done in one window of the group is done in the others. A window reports over its
connection; every report becomes a task of its own, the task waits in the line of the lock on the
members, and with the lock it hands the action to the worker of every other member. A worker
performs its actions one after the other, with a pause before each. It is there as long as it has
something to do, also when its member has left.
-/

namespace FuryBrowser.MirrorHub

open GuardedRuns
open TextBytes (Text)

section State

/-- `PageEvent`. Nothing computes with the positions. -/
inductive PageEvent
  /-- A completed click: where, with which button, and the path to the target. -/
  | click (x y : ℤ) (button : ℕ) (sel : Text)
  /-- A key press, and the character it would insert. -/
  | key (key code : Text) (mods : ℕ) (text : Text)
  /-- A wheel tick at a position. -/
  | wheel (x y dx dy : ℤ)
  deriving DecidableEq, Repr

/-- A click. -/
def PageEvent.isClick : PageEvent → Bool
  | .click .. => true
  | _ => false

/-- A key press. -/
def PageEvent.isKey : PageEvent → Bool
  | .key .. => true
  | _ => false

/-- What a window reported: over which connection, and as which of its reports. -/
structure Report where
  conn : ℕ
  /-- How many reports came over it before. -/
  number : ℕ
  event : PageEvent
  deriving DecidableEq, Repr

/-- An action to perform: a report and the page session it is for. -/
structure Action where
  report : Report
  /-- Where it is to be performed. -/
  session : ℕ
  deriving DecidableEq, Repr

/-- The worker of a member, made when the profile joined. -/
structure Worker where
  profileId : ℕ
  /-- What it has taken from the queue and not performed yet. -/
  hand : Option Action
  /-- `queue_rx`. -/
  queue : List Action
  deriving DecidableEq, Repr

/-- `Member`. Instants are milliseconds. -/
structure Member where
  profileId : ℕ
  /-- Page sessions attached so far. -/
  sessions : List ℕ
  mutedUntil : ℤ
  /-- When a click was last dispatched here. -/
  lastClick : ℤ
  /-- `queue`: which worker it goes to. -/
  worker : ℕ
  /-- Where its main frame last went. -/
  url : Text
  deriving DecidableEq, Repr

/-- The task that was spawned for a report. -/
structure Task where
  member : ℕ
  report : Report
  deriving DecidableEq, Repr

/-- A connection to a browser. -/
structure Conn where
  profileId : ℕ
  /-- Its pump still reads from it. -/
  live : Bool
  deriving DecidableEq, Repr

/-- What a profile's browser was made to do. -/
structure Performed where
  profileId : ℕ
  /-- The report that it comes from. -/
  report : Report
  deriving DecidableEq, Repr

/-- The hub, with its tasks and workers, and a history of what was reported and performed. -/
structure World where
  now : ℤ
  typing : Bool
  members : List Member
  mirrored : ℕ
  /-- The connections, open or not. -/
  conns : List Conn
  /-- The workers, in the order they were made. -/
  workers : List Worker
  /-- Tasks that have not run yet, in the order they were spawned. -/
  spawned : List Task
  /-- Tasks in the line of the lock. -/
  line : List Task
  /-- Navigations to make elsewhere: the profile, its session and the address. -/
  follows : List (ℕ × ℕ × Text)
  /-- What was reported so far. -/
  reports : List Report
  /-- What was performed so far. -/
  performed : List Performed
  deriving DecidableEq, Repr

/-- `Hub::new`. -/
def newHub (now : ℤ) : World := ⟨now, true, [], 0, [], [], [], [], [], [], []⟩

end State

section Operations

/-- The member of a profile. -/
def World.member (w : World) (pid : ℕ) : Option Member := w.members.find? (·.profileId = pid)

/-- What a worker has still to perform. -/
def Worker.pending (k : Worker) : List Action := k.hand.toList ++ k.queue

/-- One more action for a worker. -/
def Worker.push (k : Worker) (a : Action) : Worker := { k with queue := k.queue ++ [a] }

/-- `join`: a member, a worker for it and a pump. -/
def World.join (w : World) (pid : ℕ) : World :=
  { w with
    members := w.members.filter (·.profileId ≠ pid) ++
      [⟨pid, [], w.now, w.now - 10000, w.workers.length, []⟩]
    workers := w.workers ++ [⟨pid, none, []⟩]
    conns := w.conns ++ [⟨pid, true⟩] }

/-- `leave`. -/
def World.leave (w : World) (pid : ℕ) : World :=
  { w with members := w.members.filter (·.profileId ≠ pid) }

/-- A member is changed. -/
def World.updateMember (w : World) (pid : ℕ) (f : Member → Member) : World :=
  { w with members := w.members.map fun m => if m.profileId = pid then f m else m }

/-- The pump reads a report and spawns a task for it. -/
def World.report (w : World) (conn pid : ℕ) (event : PageEvent) : World :=
  let report : Report := ⟨conn, (w.reports.filter (·.conn = conn)).length, event⟩
  { w with reports := w.reports ++ [report], spawned := w.spawned ++ [⟨pid, report⟩] }

/-- A key that is not mirrored, because typing is not. -/
def World.drops (w : World) (task : Task) : Bool := task.report.event.isKey && !w.typing

/-- A member to which what comes from a profile is handed on. -/
def Member.follows (m : Member) (source : ℕ) : Bool := m.profileId ≠ source && m.sessions ≠ []

/-- The action is put in the queue of everyone who follows. -/
def sendAll (source : ℕ) (report : Report) : List Member → List Worker → List Worker
  | [], workers => workers
  | m :: rest, workers =>
    match m.sessions.getLast? with
    | some session =>
      if m.profileId ≠ source then
        sendAll source report rest (workers.modify m.worker (·.push ⟨report, session⟩))
      else sendAll source report rest workers
    | none => sendAll source report rest workers

/-- What handing on does to a member. -/
def Member.told (m : Member) (now : ℤ) (source : ℕ) (event : PageEvent) : Member :=
  let clicked : Member := if event.isClick then { m with lastClick := now } else m
  if m.profileId = source then clicked
  else if m.sessions = [] then m else { clicked with mutedUntil := now + 1200 }

/-- `fan_out`, once it has the lock. -/
def World.fanOut (w : World) (task : Task) : World :=
  match w.member task.member with
  | none => w
  | some source =>
    -- an echo of something that was dispatched
    if w.now < source.mutedUntil then w
    else { w with
      members := w.members.map (·.told w.now task.member task.report.event)
      workers := sendAll task.member task.report w.members w.workers
      mirrored := w.mirrored + (w.members.filter (·.follows task.member)).length }

/-- A window went somewhere by itself: no click of the last four seconds explains it. -/
def World.wandered (w : World) (m : Member) (url : Text) : Bool :=
  m.url ≠ url && !(w.now < m.mutedUntil) && !(w.now - m.lastClick < 4000)

/-- A member that has not been to an address yet. -/
def Member.elsewhere (m : Member) (source : ℕ) (url : Text) : Bool :=
  m.follows source && m.url ≠ url

/-- The browser's own pages are nobody's address. -/
def isOwnPage (url : Text) : Bool :=
  "about:".toList.isPrefixOf url || "chrome".toList.isPrefixOf url

/-- `on_navigated`, up to the sleeps. -/
def World.navigated (w : World) (source : ℕ) (url : Text) : World :=
  match w.member source with
  | none => w
  | some m =>
    let w' := w.updateMember source fun m => { m with url := url }
    if w.wandered m url then
      { w' with
        members := w'.members.map fun m =>
          if m.elsewhere source url then { m with mutedUntil := w.now + 1500, url := url } else m
        follows := w.follows ++ (w'.members.filter (·.elsewhere source url)).flatMap fun m =>
          m.sessions.getLast?.toList.map fun session => (m.profileId, session, url) }
    else w'

/-- A worker takes the next action and pauses. -/
def Worker.recv (k : Worker) : Option Worker :=
  match k.hand, k.queue with
  | none, a :: rest => some { k with hand := some a, queue := rest }
  | _, _ => none

/-- A worker performs what it has in its hand, if the profile is in the group and the browser
does what it is told. -/
def World.act (w : World) (i : ℕ) (k : Worker) (a : Action) (done : Bool) : World :=
  let w' : World := { w with workers := w.workers.set i { k with hand := none } }
  if (w.member k.profileId).isSome then
    let muted := w'.updateMember k.profileId fun m => { m with mutedUntil := w.now + 600 }
    if done then { muted with performed := w.performed ++ [⟨k.profileId, a.report⟩] } else muted
  else w'

end Operations

section Steps

/-- What can happen next. -/
inductive Op
  | tick (ms : ℕ)
  /-- Typing is mirrored from now on, or not. -/
  | setTyping (on : Bool)
  | join (pid : ℕ)
  | leave (pid : ℕ)
  | stop
  /-- A connection ends, and its pump removes the profile. -/
  | hangUp (conn : ℕ)
  | attach (pid session : ℕ)
  | detach (pid session : ℕ)
  /-- A report comes over a connection. -/
  | report (conn : ℕ) (event : PageEvent)
  /-- A spawned task runs for the first time, up to the lock. -/
  | arrive (k : ℕ)
  /-- The first in the line gets the lock. -/
  | grant
  /-- A window's main frame went to an address. -/
  | navigated (pid : ℕ) (url : Text)
  /-- A navigation is made elsewhere. -/
  | follow (k : ℕ)
  /-- A worker takes its next action. -/
  | recv (i : ℕ)
  | act (i : ℕ) (done : Bool)
  deriving DecidableEq, Repr

/-- One step. -/
def World.step (w : World) : Op → Option World
  | .tick ms => some { w with now := w.now + ms }
  | .setTyping on => some { w with typing := on }
  | .join pid => some (w.join pid)
  | .leave pid => some (w.leave pid)
  | .stop => some { w with members := [] }
  | .hangUp conn => w.conns[conn]?.map fun c =>
    { w.leave c.profileId with conns := w.conns.set conn { c with live := false } }
  | .attach pid session => some (w.updateMember pid fun m =>
    if session ∈ m.sessions then m else { m with sessions := m.sessions ++ [session] })
  | .detach pid session => some (w.updateMember pid fun m =>
    { m with sessions := m.sessions.filter (· ≠ session) })
  | .report conn event => w.conns[conn]?.bind fun c =>
    if c.live then some (w.report conn c.profileId event) else none
  | .arrive k => w.spawned[k]?.map fun task =>
    if w.drops task then { w with spawned := w.spawned.eraseIdx k }
    else { w with spawned := w.spawned.eraseIdx k, line := w.line ++ [task] }
  | .grant =>
    match w.line with
    | [] => none
    | task :: rest => some ({ w with line := rest }.fanOut task)
  | .navigated pid url => if isOwnPage url then none else some (w.navigated pid url)
  | .follow k => if k < w.follows.length then some { w with follows := w.follows.eraseIdx k }
    else none
  | .recv i => w.workers[i]?.bind fun k => k.recv.map fun k' =>
    { w with workers := w.workers.set i k' }
  | .act i done => w.workers[i]?.bind fun k => k.hand.map fun a => w.act i k a done

/-- Before anyone has joined. -/
def begun (w : World) : Prop := ∃ now, w = newHub now

end Steps

end FuryBrowser.MirrorHub
