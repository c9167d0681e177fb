import FuryBrowser.GuardedRuns
import FuryBrowser.UnsyncedSlot

/-!
# One machine's sessions against a shared server

One machine opens and closes a team profile while others upload versions of
it. Content is the list of sessions whose work is in a copy. The machine's
agent may be killed at any moment, also between two of the writes that a pull
or a close makes; what it finds at the next launch is what the disk then held.

The browser rewrites the files an account lives in, so a bundle unpacked over a
copy leaves the bundle's sessions.
-/

namespace FuryBrowser.SessionRuns

open GuardedRuns UnsyncedSlot

/-- The work of one browser session. -/
inductive Session where
  /-- Written by the machine under study. -/
  | mine (n : ℕ)
  /-- Written on another machine. -/
  | theirs (n : ℕ)
  deriving DecidableEq, Repr

/-- The sessions whose work is in a copy of the profile. -/
abbrev Content := List Session

/-- What is left of a copy when a bundle is unpacked over it. -/
def overlay (bundle _old : Content) : Content := bundle

/-- Where the agent is with the profile. -/
inductive Phase where
  | idle
  /-- The server answered a launch. -/
  | fetched (answer : Answer Content)
  /-- The launch has pulled; the session will grow from `base`. -/
  | pulled (base : ℤ)
  | opened (base : ℤ)
  /-- The browser is gone and its work is not uploaded yet. -/
  | closing (base : ℤ)
  /-- The upload ended: with the version it became, or as a failure. -/
  | answered (base : ℤ) (accepted : Option ℤ)
  deriving DecidableEq, Repr

/-- The machine's copy, the agent, and the versions on the server. -/
structure World where
  /-- Every accepted version, newest first; the oldest is version 1. -/
  server : List Content
  /-- The machine's copy of the profile. -/
  slot : Slot Content
  phase : Phase
  /-- How many sessions the machine's browser has written. -/
  written : ℕ
  deriving DecidableEq, Repr

/-- The server's current version, 0 before the first. -/
def World.current (w : World) : ℤ := w.server.length

/-- Whether a session's work is in some version on the server. -/
def World.onServer (w : World) (s : Session) : Bool :=
  w.server.any fun content => content.contains s

/-- Whether everything the machine wrote in a copy is on the server too. -/
def World.ownSaved (w : World) (content : Content) : Bool :=
  content.all fun s => match s with
    | .mine _ => w.onServer s
    | .theirs _ => true

/-- How the request for the bundle ends. -/
inductive Reply where
  /-- No answer, or a refusal: the launch fails. -/
  | failed
  /-- An answer; an older server sends the bundle whatever it is told. -/
  | answered (honoursEtag : Bool)
  deriving DecidableEq, Repr

/-- How an upload ends. -/
inductive Push where
  /-- Accepted, and the agent is told. -/
  | accepted
  /-- Accepted, and the answer is lost on the way. -/
  | acceptedUnheard
  /-- Refused, or never received. -/
  | failed
  deriving DecidableEq, Repr

/-- Where a kill or a full disk stops an unpack. -/
inductive Fault where
  /-- Setting aside, once the directory has moved. -/
  | renamed
  /-- Setting aside, once the marker is gone too. -/
  | cleared
  /-- Setting aside is done and nothing is unpacked. -/
  | setAside
  /-- Half-way through the bundle's files. -/
  | unpacking (left : Content)
  /-- Unpacked and the version not recorded. -/
  | unrecorded
  deriving DecidableEq, Repr

/-- What can happen next. -/
inductive Label where
  /-- A launch, up to the server's answer. -/
  | launch (reply : Reply)
  /-- The launch acts on the answer. -/
  | apply
  /-- The launch is stopped while it unpacks. -/
  | fault (point : Fault)
  /-- The launch starts the browser, or fails to. -/
  | spawn (ok : Bool)
  /-- The browser writes a session's work. -/
  | session
  | close
  /-- The agent packs the directory and uploads it. -/
  | push (result : Push)
  /-- The agent writes down how the upload ended. -/
  | settle
  /-- The agent is killed between the two writes after an accepted upload. -/
  | settleCut
  /-- The agent is killed, and its browser with it. -/
  | kill
  /-- Another machine uploads a version. -/
  | upload (content : Content)
  /-- Somebody deletes the closed profile's directory. -/
  | removeDir
  /-- Somebody deletes the file with the held version. -/
  | removeVersion
  deriving DecidableEq, Repr

/-- Whether a label deletes local data by hand. -/
def Label.removes : Label → Bool
  | .removeDir => true
  | .removeVersion => true
  | _ => false

/-- The server's answer to a launch that holds a version. -/
def serverAnswer (server : List Content) (held : Option ℤ) (honoursEtag : Bool) :
    Answer Content :=
  match server with
  | [] => .nothing
  | content :: _ =>
    if honoursEtag ∧ held = some (server.length : ℤ) then .unchanged server.length
    else .bundle content server.length

/-- The slot a stopped unpack leaves. `target` is where the bundle was going;
what is left half-way comes from the bundle or from what was there. -/
def faultSlot (slot target : Slot Content) (bundle : Content) : Fault → Option (Slot Content)
  | .renamed =>
    if slot.unsynced = none then none else some { slot with dir := none, aside := target.aside }
  | .cleared =>
    if slot.unsynced = none then none
    else some { slot with dir := none, unsynced := none, aside := target.aside }
  | .setAside => if slot.unsynced = none then none else some target
  | .unpacking left =>
    if left.all fun s => bundle.contains s || (target.dir.getD []).contains s then
      some { target with dir := some left }
    else none
  | .unrecorded => some (target.unpack overlay bundle)

/-- Add a session's work to the directory. -/
def addSession (slot : Slot Content) (s : Session) : Slot Content :=
  { slot with dir := slot.dir.map (s :: ·) }

/-- One step of the machine, the server or another machine. -/
def step (w : World) : Label → Option World
  | .launch reply =>
    match w.phase, reply with
    | .idle, .failed => some { w with slot := w.slot.createDir [] }
    | .idle, .answered honoursEtag =>
      let slot := w.slot.createDir []
      some { w with
        slot := slot
        phase := .fetched (serverAnswer w.server slot.held honoursEtag) }
    | _, _ => none
  | .apply =>
    match w.phase with
    | .fetched answer =>
      let (slot, base) := w.slot.pull overlay answer
      some { w with slot := slot, phase := .pulled base }
    | _ => none
  | .fault point =>
    match w.phase with
    | .fetched (.bundle content version) => do
      let target ← w.slot.unpackTarget version
      let slot ← faultSlot w.slot target content point
      some { w with slot := slot, phase := .idle }
    | _ => none
  | .spawn ok =>
    match w.phase with
    | .pulled base => some { w with phase := if ok then .opened base else .idle }
    | _ => none
  | .session =>
    match w.phase with
    | .opened _ =>
      some { w with slot := addSession w.slot (.mine w.written), written := w.written + 1 }
    | _ => none
  | .close =>
    match w.phase with
    | .opened base => some { w with phase := .closing base }
    | _ => none
  | .push result =>
    match w.phase with
    | .closing base =>
      match result with
      | .failed => some { w with phase := .answered base none }
      | .accepted =>
        if base = w.current then
          some { w with
            server := w.slot.dir.getD [] :: w.server
            phase := .answered base (some (w.current + 1)) }
        else none
      | .acceptedUnheard =>
        if base = w.current then
          some { w with
            server := w.slot.dir.getD [] :: w.server
            phase := .answered base none }
        else none
    | _ => none
  | .settle =>
    match w.phase with
    | .answered _ (some version) =>
      some { w with slot := w.slot.clear.recordHeld version, phase := .idle }
    | .answered base none => some { w with slot := w.slot.mark base, phase := .idle }
    | _ => none
  | .settleCut =>
    match w.phase with
    | .answered _ (some _) => some { w with slot := w.slot.clear, phase := .idle }
    | _ => none
  | .kill => some { w with phase := .idle }
  | .upload content =>
    -- Another machine has this one's work only from the server.
    if w.ownSaved content then some { w with server := content :: w.server } else none
  | .removeDir =>
    match w.phase with
    | .idle => some { w with slot := { w.slot with dir := none } }
    | _ => none
  | .removeVersion =>
    match w.phase with
    | .idle => some { w with slot := { w.slot with version := none } }
    | _ => none

/-- A machine that has never opened the profile, beside any server. -/
def init (w : World) : Prop :=
  w.slot = ⟨none, none, none, []⟩ ∧ w.phase = .idle ∧ w.written = 0

/-- A machine that has never opened the profile, beside an empty server. -/
def fresh : World := ⟨[], ⟨none, none, none, []⟩, .idle, 0⟩

theorem fresh_init : init fresh := ⟨rfl, rfl, rfl⟩

/-- A stopped unpack has moved aside what the whole unpack would. -/
theorem faultSlot_aside {slot target slot' : Slot Content} {bundle : Content} {point : Fault}
    (h : faultSlot slot target bundle point = some slot') : slot'.aside = target.aside := by
  unfold faultSlot at h
  cases point with
  | unrecorded =>
    cases h
    rfl
  | _ =>
    dsimp only at h
    split at h <;> cases h
    rfl

end FuryBrowser.SessionRuns
