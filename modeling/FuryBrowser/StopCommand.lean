import Mathlib.Data.Nat.Notation
import Mathlib.Data.Option.Basic

/-!
# Stopping a team profile

The agent holds the browser of a team profile and the token of its lock, and outlives the shell.
The shell remembers the tokens of the locks it took since it was started, and turns to the agent
only for a profile whose token it remembers; what it does not remember it takes to be held by
somebody else.
-/

namespace FuryBrowser.StopCommand

/-- A profile's row in the server's table of locks. -/
structure Lock where
  token : ℕ
  /-- Whether it was given to this machine. -/
  mine : Bool
  /-- Whether it has time left. -/
  live : Bool
  deriving DecidableEq, Repr

/-- A profile's entry in the agent's map of what is running. -/
structure Entry where
  /-- Whether its browser runs. -/
  alive : Bool
  /-- Whether it was launched against a server, which its work goes to. -/
  server : Bool
  lockToken : Option ℕ
  deriving DecidableEq, Repr

/-- What the agent has of the profile. -/
structure Agent where
  running : Option Entry
  /-- Whether a launch has started a browser that is not in the map yet. -/
  starting : Bool
  /-- Whether another stop is closing a browser that it took out of the map. -/
  closing : Bool
  deriving DecidableEq, Repr

/-- The profile at the shell, at the agent and at the server. -/
structure Machine where
  /-- Its token in the shell's `locks`. -/
  token : Option ℕ
  agent : Option Agent
  /-- Whether a browser that has gone left work here that was not uploaded. -/
  unsent : Bool
  lock : Option Lock
  deriving DecidableEq, Repr

/-- How the shell's call of the agent goes. -/
inductive AgentCall
  | answered
  /-- There is no connection, for another reason than that the agent does not run. -/
  | unconnected
  /-- The answer does not come in time, or breaks off. -/
  | unanswered (arrived : Bool)
  deriving DecidableEq, Repr

/-- How a request to the server goes. -/
inductive Delivery
  | done
  /-- It arrives, and the answer is lost. -/
  | lost
  /-- It does not arrive, or is refused. -/
  | failed
  deriving DecidableEq, Repr

/-- How everything goes that a stop asks for. -/
structure Calls where
  /-- The shell's call of the agent. -/
  agent : AgentCall
  /-- Whether the agent can wait for the browser. -/
  waits : Bool
  /-- Whether the profile can be packed. -/
  packs : Bool
  /-- Whether the upload gets through, if its lock is good. -/
  pushes : Bool
  /-- Whether the agent's release of the lock gets through. -/
  releases : Bool
  /-- The shell's own release of the lock. -/
  unlock : Delivery
  deriving DecidableEq, Repr

/-- What the agent says to `profile.stop`, as the shell sees it. -/
inductive Answer
  /-- Whether something was stopped. -/
  | stopped (did : Bool)
  | notRunning
  /-- A refusal, a broken connection, or no answer in time. -/
  | error
  deriving DecidableEq, Repr

section Server

/-- The server's `release_lock`: by the token alone, and no error if there is none. -/
def Machine.releaseLock (m : Machine) (t : ℕ) : Machine :=
  if m.lock.map Lock.token = some t then { m with lock := none } else m

/-- An upload is only accepted under the profile's lock. -/
def Machine.authorises (m : Machine) (t : ℕ) : Bool :=
  m.lock.any fun k => k.token = t && k.live

end Server

section Agent

/-- The marker beside the profile's directory is set or cleared. -/
def Machine.leaveWork (m : Machine) (unsent : Bool) : Machine := { m with unsent := unsent }

/-- What the agent's `stop` does for a server once the browser has gone: the upload, and the
release of the lock whatever came of it. -/
def handOver (c : Calls) (m : Machine) (t : ℕ) : Answer × Machine :=
  let sent := c.packs && c.pushes && m.authorises t
  let m := m.leaveWork !sent
  let m := if c.releases then m.releaseLock t else m
  (if sent then .stopped true else .error, m)

/-- What the agent's `stop` does with the entry that it took out of the map. -/
def closeEntry (c : Calls) (m : Machine) (e : Entry) : Answer × Machine :=
  if !c.waits then (.error, m.leaveWork true)
  else if e.server then
    match e.lockToken with
    | none => (.error, m.leaveWork true)
    | some t => handOver c m t
  else (.stopped true, m)

/-- The profile is taken out of the agent's map. -/
def Machine.letGo (m : Machine) (a : Agent) : Machine :=
  { m with agent := some { a with running := none } }

/-- The agent's `stop`. -/
def agentStop (c : Calls) (m : Machine) (a : Agent) : Answer × Machine :=
  match a.running with
  | none => (.stopped false, m)
  | some e => closeEntry c (m.letGo a) e

/-- The shell's call of it. -/
def callAgent (c : Calls) (m : Machine) : Answer × Machine :=
  match m.agent with
  | none => (.notRunning, m)
  | some a =>
    match c.agent with
    | .answered => agentStop c m a
    | .unconnected => (.error, m)
    | .unanswered arrived => (.error, if arrived then (agentStop c m a).2 else m)

end Agent

section Shell

/-- The token is forgotten. -/
def Machine.forget (m : Machine) : Machine := { m with token := none }

/-- The shell gives the lock back itself. -/
def giveBack (c : Calls) (m : Machine) (t : ℕ) : Except Unit Bool × Machine :=
  match c.unlock with
  | .done => (.ok true, (m.releaseLock t).forget)
  | .lost => (.error (), m.releaseLock t)
  | .failed => (.error (), m)

/-- What the shell makes of the agent's answer. -/
def afterAgent (c : Calls) (t : ℕ) : Answer × Machine → Except Unit Bool × Machine
  | (.stopped true, m) => (.ok true, m.forget)
  -- The agent was restarted, or the browser has gone: the lock is still there to be returned.
  | (.stopped false, m) | (.notRunning, m) => giveBack c m t
  | (.error, m) => (.error (), m.forget)

/-- `stop`: its answer says whether something was stopped. -/
def stop (isLocal : Bool) (c : Calls) (m : Machine) : Except Unit Bool × Machine :=
  if isLocal then
    match callAgent c m with
    | (.stopped did, m) => (.ok did, m)
    | (_, m) => (.error (), m)
  else
    match m.token with
    | none => (.ok false, m)
    | some t => afterAgent c t (callAgent c m)

end Shell

section Purpose

/-- No launch and no other stop has a browser of the profile. -/
def Agent.Undisturbed (a : Agent) : Prop := a.starting = false ∧ a.closing = false

/-- No browser of the profile runs under the agent. -/
def Agent.Closed (a : Agent) : Prop := (∀ e ∈ a.running, e.alive = false) ∧ a.Undisturbed

/-- This machine has no lock on the profile. -/
def Machine.Unlocked (m : Machine) : Prop := ∀ k ∈ m.lock, k.mine = false

/-- What stopping a team profile is for. -/
structure Machine.Stopped (m : Machine) : Prop where
  /-- No browser of it runs under this machine's agent. -/
  closed : ∀ a ∈ m.agent, a.Closed
  /-- Its work was handed to the agent's upload. -/
  handed : m.unsent = false ∧ ∀ a ∈ m.agent, ∀ e ∈ a.running, e.server = false
  /-- This machine's lock on it is released. -/
  released : m.Unlocked

/-- What a stop does is what it is for, if it says that it succeeded. -/
def Fulfils (r : Except Unit Bool × Machine) : Prop := ∀ did, r.1 = .ok did → r.2.Stopped

/-- A lock that this machine has is the one of this token. -/
def Machine.KnowsLock (m : Machine) (t : ℕ) : Prop := ∀ k ∈ m.lock, k.mine = true → k.token = t

/-- The upload of an entry's work is going to be accepted. -/
def Uploads (c : Calls) (m : Machine) (e : Entry) : Prop :=
  c.packs = true ∧ c.pushes = true ∧ ∃ t ∈ e.lockToken, m.authorises t = true

/-- The shell gives a lock back for an agent that has no entry: nothing else may be left. -/
def Returned (c : Calls) (m : Machine) (t : ℕ) : Prop :=
  c.unlock = .done → (∀ a ∈ m.agent, a.Undisturbed) ∧ m.unsent = false ∧ m.KnowsLock t

/-- The agent closes an entry's browser: the lock must be released after the upload, and where there
is no upload there may be neither work nor lock. -/
def Closes (c : Calls) (m : Machine) (a : Agent) (e : Entry) : Prop :=
  if e.server then Uploads c m e → a.Undisturbed ∧ (c.releases = true ∨ m.Unlocked)
  else a.Undisturbed ∧ m.unsent = false ∧ m.Unlocked

/-- When a stop does what it is for. -/
def Settles (c : Calls) (m : Machine) : Prop :=
  match m.token with
  | none => m.Stopped
  | some t =>
    match m.agent with
    | none => Returned c m t
    | some a =>
      c.agent = .answered →
        match a.running with
        | none => Returned c m t
        | some e => c.waits = true → Closes c m a e

end Purpose

section Steps

variable {c : Calls} {m : Machine} {a : Agent} {e : Entry} {t : ℕ}

theorem fulfils_ok {did : Bool} : Fulfils (.ok did, m) ↔ m.Stopped :=
  ⟨fun h => h did rfl, fun h _ _ => h⟩

theorem fulfils_error {u : Unit} : Fulfils (.error u, m) := by
  intro did h
  cases h

@[simp] theorem releaseLock_agent : (m.releaseLock t).agent = m.agent := by
  rw [Machine.releaseLock]
  split <;> rfl

@[simp] theorem releaseLock_unsent : (m.releaseLock t).unsent = m.unsent := by
  rw [Machine.releaseLock]
  split <;> rfl

@[simp] theorem leaveWork_agent {u : Bool} : (m.leaveWork u).agent = m.agent := rfl

@[simp] theorem leaveWork_unsent {u : Bool} : (m.leaveWork u).unsent = u := rfl

@[simp] theorem leaveWork_unlocked {u : Bool} : (m.leaveWork u).Unlocked ↔ m.Unlocked := Iff.rfl

@[simp] theorem leaveWork_knowsLock {u : Bool} :
    (m.leaveWork u).KnowsLock t ↔ m.KnowsLock t := Iff.rfl

theorem stopped_forget : m.forget.Stopped ↔ m.Stopped :=
  ⟨fun h => ⟨h.closed, h.handed, h.released⟩, fun h => ⟨h.closed, h.handed, h.released⟩⟩

/-- A release leaves no lock of this machine just where it had no other one. -/
theorem releaseLock_released :
    (m.releaseLock t).Unlocked ↔ m.KnowsLock t := by
  rw [Machine.Unlocked, Machine.releaseLock, Machine.KnowsLock]
  split
  · rename_i heq
    constructor
    · intro _ k hk _
      rw [Option.mem_def.mp hk] at heq
      exact Option.some.inj heq
    · intro _ k hk
      cases hk
  · rename_i hne
    constructor
    · intro h k hk hmine
      rw [h k hk] at hmine
      cases hmine
    · intro h k hk
      by_contra hmine
      apply hne
      rw [Option.mem_def.mp hk, Option.map_some, h k hk (Bool.not_eq_false _ ▸ hmine)]

/-- An agent without an entry has nothing but what is under way. -/
theorem closed_of_no_entry (h : a.running = none) : a.Closed ↔ a.Undisturbed := by
  rw [Agent.Closed, h]
  exact and_iff_right fun e he => absurd he (Option.not_mem_none e)

/-- What the shell's own release comes to, for an agent without an entry. -/
theorem fulfils_giveBack (h : ∀ a ∈ m.agent, a.running = none) :
    Fulfils (giveBack c m t) ↔ Returned c m t := by
  rw [giveBack, Returned]
  cases c.unlock with
  | done =>
    have hclosed : (∀ a ∈ m.agent, a.Closed) ↔ ∀ a ∈ m.agent, a.Undisturbed :=
      forall₂_congr fun a ha => closed_of_no_entry (h a ha)
    have hnone : ∀ a ∈ m.agent, ∀ e ∈ a.running, e.server = false := by
      intro a ha e he
      rw [h a ha] at he
      cases he
    rw [fulfils_ok, stopped_forget, ← releaseLock_released, ← hclosed]
    constructor
    · intro hs _
      exact ⟨by simpa using hs.closed, by simpa using hs.handed.1, hs.released⟩
    · intro hr
      obtain ⟨hclose, hsent, hreleased⟩ := hr rfl
      exact ⟨by simpa using hclose, by simpa using ⟨hsent, hnone⟩, hreleased⟩
  | lost => exact iff_of_true fulfils_error (fun h => by cases h)
  | failed => exact iff_of_true fulfils_error (fun h => by cases h)

/-- An upload that is accepted was made under the lock that its release takes away. -/
theorem knowsLock_of_authorises (h : m.authorises t = true) : m.KnowsLock t := by
  intro k hk _
  rw [Machine.authorises, Option.mem_def.mp hk, Option.any_some, Bool.and_eq_true] at h
  exact of_decide_eq_true h.1

/-- An agent that just let go of its entry is closed unless something else is under way. -/
theorem closed_without_entry : ({ a with running := none } : Agent).Closed ↔ a.Undisturbed :=
  closed_of_no_entry rfl

/-- A machine whose agent let go of its entry is as a stop leaves it, if nothing else is under way
and neither work nor lock are left. -/
theorem stopped_without_entry (ha : m.agent = some { a with running := none }) :
    m.Stopped ↔ a.Undisturbed ∧ m.unsent = false ∧ m.Unlocked := by
  constructor
  · intro h
    exact ⟨closed_without_entry.mp (h.closed _ ha), h.handed.1, h.released⟩
  · rintro ⟨hquiet, hsent, hlock⟩
    refine ⟨?_, ⟨hsent, ?_⟩, hlock⟩
    · intro a' ha'
      obtain rfl := Option.some.inj (ha.symm.trans ha')
      exact closed_without_entry.mpr hquiet
    · intro a' ha' e he
      obtain rfl := Option.some.inj (ha.symm.trans ha')
      exact absurd he (Option.not_mem_none e)

/-- What the agent's hand-over comes to. -/
theorem fulfils_handOver {u : ℕ} (ha : m.agent = some { a with running := none }) :
    Fulfils (afterAgent c u (handOver c m t)) ↔
      ((c.packs && c.pushes && m.authorises t) = true →
        a.Undisturbed ∧ (c.releases = true ∨ m.Unlocked)) := by
  rw [handOver]
  cases hsent : c.packs && c.pushes && m.authorises t with
  | false => exact iff_of_true fulfils_error (fun h => by cases h)
  | true =>
    have hknows : m.KnowsLock t := knowsLock_of_authorises ((Bool.and_eq_true _ _).mp hsent).2
    cases c.releases with
    | false =>
      rw [if_pos rfl, if_neg Bool.false_ne_true, afterAgent, fulfils_ok, stopped_forget,
        stopped_without_entry (m := m.leaveWork (!true)) (a := a) ha]
      simp
    | true =>
      rw [if_pos rfl, if_pos rfl, afterAgent, fulfils_ok, stopped_forget,
        stopped_without_entry (a := a) (by rw [releaseLock_agent, leaveWork_agent, ha]),
        releaseLock_unsent, releaseLock_released]
      simp [hknows]

/-- What the agent's stop comes to, where it has an entry. -/
theorem fulfils_closeEntry {u : ℕ} :
    Fulfils (afterAgent c u (closeEntry c (m.letGo a) e)) ↔ (c.waits = true → Closes c m a e) := by
  rw [closeEntry, Closes, Uploads]
  cases c.waits with
  | false => exact iff_of_true fulfils_error (fun h => by cases h)
  | true =>
    rw [if_neg (by decide), forall_prop_of_true rfl]
    cases e.server with
    | false =>
      rw [if_neg (by decide), if_neg (by decide), afterAgent, fulfils_ok, stopped_forget,
        stopped_without_entry rfl]
      rfl
    | true =>
      rw [if_pos rfl, if_pos rfl]
      cases e.lockToken with
      | none => exact iff_of_true fulfils_error (by simp)
      | some t =>
        have hsame : (m.letGo a).authorises t = m.authorises t := rfl
        rw [fulfils_handOver rfl, Bool.and_eq_true, Bool.and_eq_true, and_assoc, hsame]
        simp only [Option.mem_some_iff, exists_eq_left']
        rfl

/-- A profile whose token the shell does not remember is left as it is, whatever runs of it. -/
theorem stop_unknown {c : Calls} (h : m.token = none) : stop false c m = (.ok false, m) := by
  rw [stop, if_neg Bool.false_ne_true, h]

/-- After a stop that succeeds no browser of the profile runs under the agent, its work was uploaded
and its lock is released, exactly where the shell remembers a token of it and nothing else stands
in the way, or where there was nothing left of it before. -/
theorem stop_fulfils_iff (c : Calls) (m : Machine) : Fulfils (stop false c m) ↔ Settles c m := by
  rw [stop, Settles, if_neg Bool.false_ne_true]
  cases m.token with
  | none => exact fulfils_ok
  | some t =>
    cases hagent : m.agent with
    | none =>
      have hcall : callAgent c m = (.notRunning, m) := by rw [callAgent, hagent]
      dsimp only
      rw [hcall, afterAgent, fulfils_giveBack (by simp [hagent])]
    | some a =>
      dsimp only
      cases hcall : c.agent with
      | unconnected =>
        have hcall : callAgent c m = (.error, m) := by rw [callAgent, hagent, hcall]
        rw [hcall]
        exact iff_of_true fulfils_error (fun h => by cases h)
      | unanswered arrived =>
        have hcall : ∃ m', callAgent c m = (.error, m') := ⟨_, by rw [callAgent, hagent, hcall]⟩
        obtain ⟨m', hcall⟩ := hcall
        rw [hcall]
        exact iff_of_true fulfils_error (fun h => by cases h)
      | answered =>
        have hcall : callAgent c m = agentStop c m a := by rw [callAgent, hagent, hcall]
        rw [hcall, forall_prop_of_true rfl, agentStop]
        cases hentry : a.running with
        | none =>
          apply fulfils_giveBack
          intro a' ha'
          rw [hagent] at ha'
          obtain rfl := Option.some.inj ha'
          exact hentry
        | some e => exact fulfils_closeEntry

end Steps

section Restart

/-- A team profile that was launched from this shell, with its browser open. -/
def launched : Machine :=
  ⟨some 7, some ⟨some ⟨true, true, some 7⟩, false, false⟩, false, some ⟨7, true, true⟩⟩

/-- The shell is started anew, with an empty `locks`. -/
def Machine.restartShell (m : Machine) : Machine := { m with token := none }

/-- Everything goes well that a stop asks for. -/
def allWell : Calls := ⟨.answered, true, true, true, true, .done⟩

/-- A stop closes a profile that this shell launched. -/
example : stop false allWell launched =
    (.ok true, ⟨none, some ⟨none, false, false⟩, false, none⟩) := rfl

/-- After a restart of the shell the stop succeeds, and the browser stays open under its lock. -/
theorem restarted_shell_leaves_open :
    (stop false allWell launched.restartShell).1 = .ok false ∧
      ¬ (stop false allWell launched.restartShell).2.Stopped := by
  refine ⟨rfl, ?_⟩
  intro h
  have hopen : true = false := (h.closed _ rfl).1 _ rfl
  cases hopen

end Restart

end FuryBrowser.StopCommand
