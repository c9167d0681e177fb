import FuryBrowser.GuardedRuns
import FuryBrowser.TunnelConfig

/-!
# The task of a tunnel

One task serves all connections of a tunnel. It waits for a caller, for a datagram or for a timer,
hands on what its stack produced, and lets the tunnel renew its session. It ends with the first
call that fails, and what the callers hold is a cell that was filled once: with a task that has
ended in it, every later dial and every later lookup fails.
-/

namespace FuryBrowser.TunnelTask

open AgentDisk GuardedRuns IpAddress TunnelConfig

section Answers

/-- Why the tunnel does not take something. -/
inductive NoiseError
  /-- A datagram that was there before. -/
  | duplicate
  /-- A counter too far behind. -/
  | replayed
  /-- Not a datagram of the protocol. -/
  | malformed
  /-- One for a session that is not there. -/
  | unknownSession
  /-- Nothing was heard of the peer for too long. -/
  | connectionExpired
  | other
  deriving DecidableEq, Repr

/-- `TunnResult`. -/
inductive Answer
  | done
  | err (e : NoiseError)
  /-- A datagram for the peer. -/
  | writeToNetwork (datagram : Bytes)
  /-- A packet for the stack. -/
  | writeToTunnel (packet : Bytes)
  deriving DecidableEq, Repr

/-- Why a call fails. -/
inductive Failure
  /-- The socket did not give a datagram. -/
  | recv
  /-- The socket did not take one. -/
  | send
  /-- "wireguard could not encapsulate: …" -/
  | encapsulate (e : NoiseError)
  /-- "wireguard asked to write to the tunnel while sending" -/
  | wroteToTunnel
  /-- "wireguard could not decapsulate: …" -/
  | decapsulate (e : NoiseError)
  | timer (e : NoiseError)
  deriving DecidableEq, Repr

/-- An answer, and whether the socket takes the datagram if it is one. -/
structure Call where
  /-- What the tunnel answers. -/
  answer : Answer
  sent : Bool
  deriving DecidableEq, Repr

/-- What the tunnel answers to a datagram that has arrived: replies, as long as it asks for them,
and then something else. -/
structure Received where
  /-- For each reply, whether the socket takes it. -/
  replies : List Bool
  /-- The packet in it, nothing, or why it was not taken. -/
  last : Except NoiseError (Option Bytes)
  deriving DecidableEq

/-- `HANDSHAKE_INITIATION_LEN`. -/
def handshakeInitiationLen : ℕ := 148

/-- `send_packet`: whether the packet itself went. -/
def sendPacket (call : Call) : Except Failure Bool :=
  match call.answer with
  | .writeToNetwork datagram =>
    if call.sent then .ok (datagram.length ≠ handshakeInitiationLen) else .error .send
  | .done => .ok false
  | .err e => .error (.encapsulate e)
  | .writeToTunnel _ => .error .wroteToTunnel

/-- `recv_packet`: the packet, or `none` when it was protocol traffic. -/
def recvPacket : Option Received → Except Failure (Option Bytes)
  | none => .error .recv
  | some received =>
    if received.replies.all id then received.last.mapError .decapsulate else .error .send

/-- `tick`. -/
def tick (call : Call) : Except Failure Unit :=
  match call.answer with
  | .writeToNetwork _ => if call.sent then .ok () else .error .send
  | .err e => .error (.timer e)
  | .done | .writeToTunnel _ => .ok ()

end Answers

section Loop

/-- What wakes the loop. -/
inductive Wake
  /-- A new connection is wanted. -/
  | dial
  /-- A name is to be looked up. -/
  | resolve
  /-- A datagram from the peer, unless the socket fails, and whether the peer has answered by
  then. -/
  | datagram (received : Option Received) (handshaken : Bool)
  | timer
  deriving DecidableEq

/-- One turn of the loop: what wakes it, what the tunnel answers to the packets that the stack has
produced, and what to the timers. -/
structure Turn where
  wake : Wake
  /-- A call for each packet. -/
  outbound : List Call
  /-- The call of the timers. -/
  timers : Call
  deriving DecidableEq

/-- What the loop does with what wakes it. -/
def Wake.handle : Wake → Except Failure Unit
  | .datagram received _ => (recvPacket received).map fun _ => ()
  | .dial | .resolve | .timer => .ok ()

/-- All the packets are handed on. -/
def sendAll : List Call → Except Failure Unit
  | [] => .ok ()
  | call :: rest => do
    let _ ← sendPacket call
    sendAll rest

/-- One turn of `run`. -/
def Turn.run (turn : Turn) : Except Failure Unit := do
  turn.wake.handle
  sendAll turn.outbound
  tick turn.timers

/-- A datagram that came, and a peer that has answered. -/
def Wake.handshaken : Wake → Bool
  | .datagram _ handshaken => handshaken
  | .dial | .resolve | .timer => false

end Loop

section Sharing

/-- `Stack`: its task, and what it has been through. -/
structure Stack where
  /-- The address inside the tunnel. -/
  addr : IpAddr
  /-- The task has not ended. -/
  running : Bool
  answered : Bool
  /-- The turns of its loop so far. -/
  turns : List Turn
  deriving DecidableEq

/-- `run` up to the loop: tunnels of version 6 only are not supported. -/
def Stack.begin (addr : IpAddr) : Stack :=
  { addr
    running := match addr with
      | .v4 _ => true
      | .v6 _ => false
    answered := false
    turns := [] }

/-- One turn, with which the task may end. -/
def Stack.turn (s : Stack) (turn : Turn) : Stack :=
  { s with
    running := turn.run.toBool
    answered := s.answered || turn.wake.handshaken
    turns := s.turns ++ [turn] }

/-- `Shared`. -/
structure Shared where
  config : Config
  users : ℕ
  stack : Option Stack
  deriving DecidableEq

/-- `Shared::stack`: the first that needs it starts it, and again if it could not be started. -/
def Shared.initialized (w : Shared) (connected : Bool) : Shared :=
  match w.stack with
  | some _ => w
  | none => { w with stack := (start w.config connected).map fun started => .begin started.addr }

/-- `dial` and `resolve` reach the task: otherwise "the tunnel is no longer running". -/
def Shared.reaches (w : Shared) (connected : Bool) : Bool :=
  (w.initialized connected).stack.any (·.running)

/-- What can happen next. -/
inductive Op
  | clone
  /-- A user is done with it, and with the last one its task is. -/
  | drop
  /-- A user dials, or looks up a name. -/
  | dial (connected : Bool)
  | turn (turn : Turn)

/-- One step of what is used. -/
def Shared.step (w : Shared) (op : Op) : Option Shared :=
  if w.users = 0 then none
  else match op with
  | .clone => some { w with users := w.users + 1 }
  | .drop => some { w with
      users := w.users - 1, stack := if w.users = 1 then none else w.stack }
  | .dial connected => some (w.initialized connected)
  | .turn turn => w.stack.bind fun s =>
    if s.running then some { w with stack := some (s.turn turn) } else none

/-- Someone has asked for the tunnel of a configuration. -/
def begun (w : Shared) : Prop := ∃ config, w = ⟨config, 1, none⟩

end Sharing

/-- As long as there is a user the task has not ended, or the next dial or lookup reaches one that
has not. -/
def Outlives (w : Shared) : Prop :=
  0 < w.users → (∀ s ∈ w.stack, s.running = true) ∨ ∃ connected, w.reaches connected = true

section Harm

/-- The socket takes what it is given, and the tunnel gives nothing it should not. -/
def Call.sends (call : Call) : Prop :=
  match call.answer with
  | .writeToNetwork _ => call.sent = true
  | .done => True
  | .err _ | .writeToTunnel _ => False

/-- The socket takes what it is given, and the session has not expired. -/
def Call.ticks (call : Call) : Prop :=
  match call.answer with
  | .writeToNetwork _ => call.sent = true
  | .done | .writeToTunnel _ => True
  | .err _ => False

/-- The socket gives a datagram and takes the replies, and the tunnel accepts it. -/
def Wake.accepted : Wake → Prop
  | .datagram received _ => ∃ r, received = some r ∧ (∀ sent ∈ r.replies, sent = true) ∧
    ∃ packet, r.last = .ok packet
  | .dial | .resolve | .timer => True

/-- Nothing that came from the network, the timers or the socket was an error. -/
structure Turn.Harmless (turn : Turn) : Prop where
  wake : turn.wake.accepted
  /-- The packets of the stack. -/
  outbound : ∀ call ∈ turn.outbound, call.sends
  timers : turn.timers.ticks

end Harm

section Turns

variable {call : Call} {turn : Turn}

/-- One call after the other succeeds if both do. -/
theorem bind_toBool {ε α β : Type} {x : Except ε α} {f : α → Except ε β} :
    (x >>= f).toBool = true ↔ ∃ a, x = .ok a ∧ (f a).toBool = true := by
  cases x with
  | error e =>
    constructor
    · nofun
    · rintro ⟨a, ha, -⟩
      cases ha
  | ok a =>
    constructor
    · intro h
      exact ⟨a, rfl, h⟩
    · rintro ⟨b, hb, h⟩
      cases hb
      exact h

/-- A packet is handed on exactly if the tunnel and the socket take it. -/
theorem sendPacket_ok : (∃ went, sendPacket call = .ok went) ↔ call.sends := by
  obtain ⟨answer, sent⟩ := call
  cases answer with
  | writeToNetwork datagram =>
    cases sent with
    | false => simp [sendPacket, Call.sends]
    | true => exact ⟨fun _ => rfl, fun _ => ⟨_, rfl⟩⟩
  | done => simp [sendPacket, Call.sends]
  | err e => simp [sendPacket, Call.sends]
  | writeToTunnel packet => simp [sendPacket, Call.sends]

/-- The timers succeed exactly if the session is there and the socket takes what they send. -/
theorem tick_ok : (tick call).toBool = true ↔ call.ticks := by
  obtain ⟨answer, sent⟩ := call
  cases answer with
  | writeToNetwork datagram => cases sent <;> simp [tick, Call.ticks, Except.toBool]
  | done => simp [tick, Call.ticks, Except.toBool]
  | err e => simp [tick, Call.ticks, Except.toBool]
  | writeToTunnel packet => simp [tick, Call.ticks, Except.toBool]

/-- All packets are handed on exactly if each is. -/
theorem sendAll_ok {calls : List Call} :
    sendAll calls = .ok () ↔ ∀ call ∈ calls, call.sends := by
  induction calls with
  | nil => simp [sendAll]
  | cons call rest ih =>
    rw [List.forall_mem_cons, ← ih, ← sendPacket_ok]
    constructor
    · intro h
      cases hcall : sendPacket call with
      | error e =>
        rw [sendAll, hcall] at h
        cases h
      | ok went =>
        rw [sendAll, hcall] at h
        exact ⟨⟨went, rfl⟩, h⟩
    · rintro ⟨⟨went, hcall⟩, hrest⟩
      rw [sendAll, hcall]
      exact hrest

/-- What woke the loop is handled exactly if it is accepted. -/
theorem handle_ok {wake : Wake} : wake.handle = .ok () ↔ wake.accepted := by
  cases wake with
  | datagram received handshaken =>
    cases received with
    | none => simp [Wake.handle, Wake.accepted, recvPacket, Except.map]
    | some r =>
      obtain ⟨replies, last⟩ := r
      by_cases hreplies : replies.all id = true
      · have hall : ∀ sent ∈ replies, sent = true := List.all_eq_true.mp hreplies
        cases last with
        | error e =>
          simp [Wake.handle, Wake.accepted, recvPacket, hreplies, Except.map, Except.mapError]
        | ok packet =>
          simp only [Wake.handle, recvPacket, hreplies, if_pos, Except.mapError, Except.map,
            Wake.accepted, true_iff]
          exact ⟨_, rfl, hall, packet, rfl⟩
      · have hnot : ¬ ∀ sent ∈ replies, sent = true := fun h =>
          hreplies (List.all_eq_true.mpr h)
        simp only [Wake.handle, recvPacket, hreplies, Except.map, Wake.accepted]
        constructor
        · nofun
        · rintro ⟨r, heq, hall, -⟩
          cases heq
          exact absurd hall hnot
  | dial => simp [Wake.handle, Wake.accepted]
  | resolve => simp [Wake.handle, Wake.accepted]
  | timer => simp [Wake.handle, Wake.accepted]

/-- A turn is survived exactly if nothing in it was an error. -/
theorem turn_run_iff : turn.run.toBool = true ↔ turn.Harmless := by
  rw [Turn.run, bind_toBool]
  constructor
  · rintro ⟨⟨⟩, hwake, hrest⟩
    obtain ⟨⟨⟩, hout, htick⟩ := bind_toBool.mp hrest
    exact ⟨handle_ok.mp hwake, sendAll_ok.mp hout, tick_ok.mp htick⟩
  · rintro ⟨hwake, hout, htick⟩
    exact ⟨(), handle_ok.mpr hwake, bind_toBool.mpr ⟨(), sendAll_ok.mpr hout, tick_ok.mpr htick⟩⟩

end Turns

/-- What a task's state comes from: its address, and what it has been through. -/
structure Accounted (config : Config) (s : Stack) : Prop where
  /-- The address is the one of the configuration. -/
  addr : config.inside = some s.addr
  /-- It runs if that is of version 4 and no turn was harmful. -/
  running : s.running = true ↔ (∃ a, s.addr = .v4 a) ∧ ∀ turn ∈ s.turns, turn.Harmless

section Runs

variable {w w' : Shared} {config : Config} {s : Stack} {turn : Turn} {connected : Bool}

/-- A task that has begun has been through nothing. -/
theorem accounted_begin (addr : IpAddr) (h : config.inside = some addr) :
    Accounted config (.begin addr) := by
  refine ⟨h, ?_⟩
  cases addr with
  | v4 a => exact ⟨fun _ => ⟨⟨a, rfl⟩, nofun⟩, fun _ => rfl⟩
  | v6 a =>
    constructor
    · nofun
    · rintro ⟨⟨b, hb⟩, -⟩
      cases hb

/-- A turn more, of a task that runs. -/
theorem Accounted.turned (h : Accounted config s) (hrunning : s.running = true) :
    Accounted config (s.turn turn) := by
  obtain ⟨hv4, hbefore⟩ := h.running.mp hrunning
  refine ⟨h.addr, turn_run_iff.trans ?_⟩
  constructor
  · intro hturn
    refine ⟨hv4, fun t ht => ?_⟩
    rcases List.mem_append.mp ht with ht | ht
    · exact hbefore t ht
    · rw [List.mem_singleton.mp ht]
      exact hturn
  · rintro ⟨-, hall⟩
    exact hall turn (List.mem_append_right _ List.mem_cons_self)

/-- What the users hold is accounted for. -/
def Sound (w : Shared) : Prop := ∀ s, w.stack = some s → Accounted w.config s

theorem sound_initialized (h : Sound w) : Sound (w.initialized connected) := by
  unfold Shared.initialized
  split
  · exact h
  · intro s hs
    obtain ⟨started, hstart, rfl⟩ := Option.map_eq_some_iff.mp hs
    exact accounted_begin _ (start_eq hstart).2

theorem sound_step : Preserved Shared.step anyStep Sound := by
  intro w op w' h _ hs
  unfold Shared.step at hs
  split at hs
  · cases hs
  · cases op with
    | clone =>
      cases hs
      exact h
    | drop =>
      cases hs
      intro s hstack
      dsimp only at hstack
      split at hstack
      · cases hstack
      · exact h s hstack
    | dial connected =>
      cases hs
      exact sound_initialized h
    | turn turn =>
      obtain ⟨s, hstack, hs⟩ := Option.bind_eq_some_iff.mp hs
      split at hs
      · rename_i hrunning
        cases hs
        intro s' hs'
        cases hs'
        exact (h s hstack).turned hrunning
      · cases hs

/-- What has ended is not started again. -/
theorem outlives_iff_running : Outlives w ↔ (0 < w.users → ∀ s ∈ w.stack, s.running = true) := by
  constructor
  · intro h hused s hs
    rcases h hused with hall | ⟨connected, hreaches⟩
    · exact hall s hs
    · rw [Shared.reaches, Shared.initialized, Option.mem_def.mp hs] at hreaches
      simpa [Option.mem_def.mp hs] using hreaches
  · intro h hused
    exact .inl (h hused)

end Runs

section Samples

/-- A configuration, as it is read. -/
def conf : Config :=
  ⟨"AAAAAAAAAAAAAAAAAAAAAAAAAAAAAAAAAAAAAAAAAAA=".toList, ["10.2.0.2/32".toList],
    ["1.1.1.1".toList], "QkJCQkJCQkJCQkJCQkJCQkJCQkJCQkJCQkJCQkJCQkI=".toList, none,
    "vpn.example.com:51820".toList, ["0.0.0.0/0".toList], some 25⟩

/-- Nothing is due. -/
def quiet : Call := ⟨.done, true⟩

/-- The answer to a handshake, with which a packet that waited is sent. -/
def answered : Turn := ⟨.datagram (some ⟨[true], .ok none⟩) true, [], quiet⟩

/-- A datagram of three bytes. -/
def stray : Turn := ⟨.datagram (some ⟨[], .error .malformed⟩) true, [], quiet⟩

/-- What is used after some steps. -/
def after (ops : List Op) : Shared := (run Shared.step ⟨conf, 1, none⟩ ops).getD ⟨conf, 0, none⟩

end Samples

/-- The task of a tunnel that has a user is there exactly as long as the tunnel's address is of
version 4, and nothing that came from the network, the timers or the socket was an error. -/
theorem task_outlives_iff {w : Shared} (h : Reached begun Shared.step anyStep w) :
    Outlives w ↔ (0 < w.users → ∀ s ∈ w.stack,
      (∃ a, w.config.inside = some (.v4 a)) ∧ ∀ turn ∈ s.turns, turn.Harmless) := by
  have hsound : Sound w := by
    refine h.invariant Sound (fun w hw => ?_) sound_step
    obtain ⟨config, rfl⟩ := hw
    nofun
  rw [outlives_iff_running]
  refine imp_congr_right fun _ => forall_congr' fun s => imp_congr_right fun hs => ?_
  have haccounted := hsound s hs
  rw [haccounted.running, haccounted.addr]
  simp only [Option.some.injEq]

theorem task_outlives_iff_answered : Outlives (after [.dial true, .turn answered]) := by
  have hreached : Reached begun Shared.step anyStep (after [.dial true, .turn answered]) :=
    .run_any [.dial true, .turn answered] (.start ⟨conf, rfl⟩) (by decide)
  refine (task_outlives_iff hreached).mpr fun _ s hs => ?_
  have hstack : (after [.dial true, .turn answered]).stack =
      some ⟨.v4 (ofOctets 10 2 0 2), true, true, [answered]⟩ := by decide
  cases hstack.symm.trans hs
  refine ⟨⟨ofOctets 10 2 0 2, by decide⟩, fun turn hturn => ?_⟩
  rw [List.mem_singleton.mp hturn]
  exact turn_run_iff.mp rfl

/-- One stray datagram, and nobody can dial any more. -/
theorem task_ended_by_stray :
    ¬ ∀ w : Shared, Reached begun Shared.step anyStep w → Outlives w := by
  intro hall
  have hreached : Reached begun Shared.step anyStep
      (after [.dial true, .turn answered, .turn stray]) :=
    .run_any [.dial true, .turn answered, .turn stray] (.start ⟨conf, rfl⟩) (by decide)
  rcases hall _ hreached (by decide) with hrunning | ⟨connected, hreaches⟩
  · exact absurd (hrunning ⟨.v4 (ofOctets 10 2 0 2), false, true, [answered, stray]⟩
      (by decide)) (by decide)
  · cases connected
    · exact absurd hreaches (by decide)
    · exact absurd hreaches (by decide)

end FuryBrowser.TunnelTask
