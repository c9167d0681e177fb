import FuryBrowser.AgentDisk
import FuryBrowser.BoundedBuffer
import FuryBrowser.GuardedRuns
import FuryBrowser.IndexedTable

/-!
# Bytes through a tunnel

A connection through a tunnel is a socket of the tunnel's own stack and a pipe to the caller. The
loop takes from the socket what has arrived, and from the pipe what the caller wrote, a piece of
either at a time, and drops both when the caller has finished. Nothing tells the caller that the
peer has finished, and nothing waits for what is still in the buffers.
-/

namespace FuryBrowser.TunnelPump

open AgentDisk BoundedBuffer GuardedRuns IndexedTable

section Sockets

/-- `tcp::State`, of a socket that connects. -/
inductive State
  /-- The peer has not answered yet. -/
  | synSent
  | established
  /-- This side has finished. -/
  | finWait1
  | finWait2
  | closeWait
  /-- Both have, this side first. -/
  | closing
  /-- Both have, the peer first. -/
  | lastAck
  /-- It is over, and waits for stragglers. -/
  | timeWait
  | closed
  deriving DecidableEq, Repr

/-- `RX_BUF` and `TX_BUF`, and the size of the pipe. -/
def bufSize : ℕ := 65536

/-- How much is moved at a time. -/
def pieceSize : ℕ := 8192

/-- `tcp::Socket`. -/
structure Socket where
  state : State
  /-- What was sent and is not with the peer. -/
  tx : Buffer UInt8 bufSize
  /-- What has come from the peer and was not received. -/
  rx : Buffer UInt8 bufSize
  deriving DecidableEq

/-- `may_send`. -/
def Socket.maySend (s : Socket) : Bool := s.state = .established || s.state = .closeWait

/-- `can_send`. -/
def Socket.canSend (s : Socket) : Bool := s.maySend && !s.tx.isFull

/-- `may_recv`. -/
def Socket.mayRecv (s : Socket) : Bool :=
  s.state = .established || s.state = .finWait1 || s.state = .finWait2 || s.rx.items ≠ []

/-- `can_recv`. -/
def Socket.canRecv (s : Socket) : Bool := s.mayRecv && s.rx.items ≠ []

/-- `is_open`. -/
def Socket.isOpen (s : Socket) : Bool := s.state ≠ .closed && s.state ≠ .timeWait

/-- `is_active`. -/
def Socket.isActive (s : Socket) : Bool := s.state ≠ .closed && s.state ≠ .timeWait

/-- `close`. -/
def Socket.close (s : Socket) : Socket :=
  match s.state with
  | .synSent => { s with state := .closed }
  | .established => { s with state := .finWait1 }
  | .closeWait => { s with state := .lastAck }
  | _ => s

/-- `send_slice`: as much as there is room for is taken. -/
def Socket.sendSlice (s : Socket) (bytes : Bytes) : Socket :=
  if s.maySend then { s with tx := s.tx.enqueue bytes } else s

end Sockets

section Connections

/-- A connection that was dialled: the socket, the pipe, what is on its way from the peer, and a
history of what either end has written and got. -/
structure Conn where
  /-- The socket, as long as it is in the set and its pump is there. -/
  socket : Option Socket
  /-- `ready` has not been answered. -/
  ready : Bool
  met : Bool
  /-- What the caller wrote and the pump has not read. -/
  up : Buffer UInt8 bufSize
  /-- The caller has closed its side. -/
  upClosed : Bool
  /-- What the pump wrote and the caller has not read. -/
  down : Buffer UInt8 bufSize
  /-- After that there is nothing more for the caller. -/
  eof : Bool
  /-- What the peer has sent and the socket does not have. -/
  flight : Bytes
  finSent : Bool
  finSeen : Bool
  /-- The loop has found that the peer has finished and everything of it is with the caller. -/
  settled : Bool
  /-- What the caller has written. -/
  wrote : Bytes
  /-- What the caller has read. -/
  got : Bytes
  /-- What the peer has sent. -/
  peerSent : Bytes
  /-- What the peer has received. -/
  peerGot : Bytes
  deriving DecidableEq

/-- A connection that is dialled. -/
def Conn.dialled : Conn :=
  ⟨some ⟨.synSent, .empty, .empty⟩, true, false, .empty, false, .empty, false, [], false, false,
    false, [], [], [], []⟩

/-- The socket is removed with its buffers, and the pump with its end of the pipe. -/
def Conn.remove (c : Conn) : Conn :=
  { c with socket := none, ready := false, up := .empty, eof := true }

/-- A socket that is not active any more is removed. -/
def Conn.keep (c : Conn) (s : Socket) : Conn :=
  if !s.isActive && !c.ready then c.remove else { c with socket := some s }

/-- Caller to tunnel. -/
def Conn.send (c : Conn) (s : Socket) (timedOut : Bool) : Conn :=
  if s.canSend && !timedOut then
    if c.up.items = [] then
      -- the caller's end of file closes the socket, and it goes at once
      if c.upClosed then { c with socket := some s.close }.remove else c.keep s
    else { c with up := c.up.dequeue pieceSize }.keep (s.sendSlice (c.up.front pieceSize))
  else c.keep s

/-- Tunnel to caller: what is taken from the socket. -/
def Socket.piece (s : Socket) : Bytes := if s.canRecv then s.rx.front pieceSize else []

/-- The socket without it. -/
def Socket.received (s : Socket) : Socket :=
  if s.canRecv then { s with rx := s.rx.dequeue pieceSize } else s

/-- The pump of one connection. It waits as long as the caller's end of the pipe is full. -/
def Conn.pump (c : Conn) (timedOut : Bool) : Option Conn :=
  c.socket.bind fun s =>
    if c.ready && !s.maySend && !s.isOpen then some c.remove
    else if c.down.room < s.piece.length then none
    else some (Conn.send { c with
      ready := c.ready && !s.maySend
      down := c.down.enqueue s.piece
      settled := c.settled || c.finSeen && s.rx.items = [] } s.received timedOut)

/-- What can happen to a connection. -/
inductive ConnOp
  | write (bytes : Bytes)
  /-- The caller closes its side. -/
  | finish
  | read (n : ℕ)
  | establish
  | refuse
  | deliver (n : ℕ)
  | peerSend (bytes : Bytes)
  | peerFinish
  /-- Bytes of the peer arrive. A socket that is gone does not get them. -/
  | arrive (n : ℕ)
  /-- The end of them arrives. -/
  | finArrive
  /-- The loop comes to the connection; whether the read from the pipe times out although there is
  something. -/
  | pump (timedOut : Bool)
  deriving DecidableEq, Repr

/-- One step of a connection. -/
def Conn.step (c : Conn) : ConnOp → Option Conn
  | .write bytes =>
    if c.socket.isSome && !c.ready && !c.upClosed && bytes.length ≤ c.up.room then
      some { c with up := c.up.enqueue bytes, wrote := c.wrote ++ bytes }
    else none
  | .finish => if c.ready then none else some { c with upClosed := true }
  | .read n => some { c with down := c.down.dequeue n, got := c.got ++ c.down.front n }
  | .establish => c.socket.bind fun s =>
    if s.state = .synSent then
      some { c with socket := some { s with state := .established }, met := true }
    else none
  | .refuse => c.socket.bind fun s =>
    if s.state = .synSent then some { c with socket := some { s with state := .closed } }
    else none
  | .deliver n => c.socket.bind fun s =>
    if s.maySend then
      some { c with
        socket := some { s with tx := s.tx.dequeue n }, peerGot := c.peerGot ++ s.tx.front n }
    else none
  | .peerSend bytes =>
    if c.met && !c.finSent then
      some { c with flight := c.flight ++ bytes, peerSent := c.peerSent ++ bytes }
    else none
  | .peerFinish => if c.met then some { c with finSent := true } else none
  | .arrive n =>
    match c.socket with
    | none => some { c with flight := c.flight.drop n }
    | some s =>
      if s.state = .established ∧ (c.flight.take n).length ≤ s.rx.room then
        some { c with
          socket := some { s with rx := s.rx.enqueue (c.flight.take n) }
          flight := c.flight.drop n }
      else none
  | .finArrive => c.socket.bind fun s =>
    if c.finSent ∧ c.flight = [] ∧ s.state = .established then
      some { c with socket := some { s with state := .closeWait }, finSeen := true }
    else none
  | .pump timedOut => c.pump timedOut

/-- The connections of a tunnel, in the order they were dialled. -/
structure Tunnel where
  conns : List Conn
  deriving DecidableEq

/-- What can happen next. -/
inductive Op
  /-- A connection is dialled. -/
  | dial
  /-- Something happens to one. -/
  | on (i : ℕ) (op : ConnOp)
  deriving DecidableEq, Repr

/-- One step. -/
def Tunnel.step (w : Tunnel) : Op → Option Tunnel
  | .dial => some { w with conns := w.conns ++ [.dialled] }
  | .on i op => w.conns[i]?.bind fun c => (c.step op).map fun c' =>
    { w with conns := w.conns.set i c' }

/-- Nothing was dialled. -/
def begun (w : Tunnel) : Prop := w = ⟨[]⟩

end Connections

section Fidelity

/-- What was sent and is not with the peer. -/
def Conn.tx (c : Conn) : Bytes := c.socket.elim [] (·.tx.items)

/-- What has come from the peer and was not received. -/
def Conn.rx (c : Conn) : Bytes := c.socket.elim [] (·.rx.items)

/-- Nothing is lost, out of order or there twice, and the end is seen. -/
structure Carried (c : Conn) : Prop where
  /-- What the caller wrote is with the peer, or on its way. -/
  up : c.wrote = c.peerGot ++ (c.tx ++ c.up.items)
  /-- What the peer sent is with the caller, or on its way. -/
  down : c.peerSent = c.got ++ (c.down.items ++ (c.rx ++ c.flight))
  /-- A peer that has finished has finished for the caller, once the loop has found everything
  handed over. -/
  eof : c.settled = true → c.eof = true

/-- The pump reads the caller's end of file. -/
def Conn.ends (c : Conn) (s : Socket) (timedOut : Bool) : Prop :=
  s.canSend = true ∧ timedOut = false ∧ c.up.items = [] ∧ c.upClosed = true

/-- What the pump finds is such that nothing has to be lost. -/
structure Gentle (c : Conn) (s : Socket) (timedOut : Bool) : Prop where
  /-- What it reads from the caller fits into the send buffer. -/
  fits : s.canSend = true → timedOut = false → (c.up.front pieceSize).length ≤ s.tx.room
  /-- When the caller closes, everything is with the peer, and no more has come from it than can be
  received at once. -/
  closes : c.ends s timedOut → s.tx.items = [] ∧ s.rx.items.length ≤ pieceSize
  /-- The peer has not finished before the caller. -/
  last : c.finSeen = true → s.rx.items = [] → c.ends s timedOut

/-- A step does not have to lose anything: neither the pump, nor what arrives for a socket that is
gone. -/
def Conn.gentle (c : Conn) : ConnOp → Prop
  | .pump timedOut => ∀ s ∈ c.socket, Gentle c s timedOut
  | .arrive n => c.socket = none → c.flight.take n = []
  | _ => True

/-- No step of any connection has to. -/
def gentle (w : Tunnel) : Op → Prop
  | .on i op => ∀ c ∈ w.conns[i]?, c.gentle op
  | .dial => True

instance (c : Conn) (s : Socket) (timedOut : Bool) : Decidable (c.ends s timedOut) := by
  unfold Conn.ends
  infer_instance

instance (c : Conn) (s : Socket) (timedOut : Bool) : Decidable (Gentle c s timedOut) :=
  decidable_of_iff
    ((s.canSend = true → timedOut = false → (c.up.front pieceSize).length ≤ s.tx.room) ∧
      (c.ends s timedOut → s.tx.items = [] ∧ s.rx.items.length ≤ pieceSize) ∧
      (c.finSeen = true → s.rx.items = [] → c.ends s timedOut))
    ⟨fun ⟨hfits, hcloses, hlast⟩ => ⟨hfits, hcloses, hlast⟩,
      fun ⟨hfits, hcloses, hlast⟩ => ⟨hfits, hcloses, hlast⟩⟩

instance (c : Conn) : DecidablePred c.gentle := fun op => by
  cases op <;> unfold Conn.gentle <;> infer_instance

instance : DecidableRel gentle := fun w op => by
  cases op <;> unfold gentle <;> infer_instance

end Fidelity

/-- Where a connection is that still has its socket. -/
inductive Phase (c : Conn) (s : Socket) : Prop
  /-- It has not been answered, or was refused. -/
  | early (hstate : s.state = .synSent ∨ s.state = .closed) (hready : c.ready = true)
    (htx : s.tx.items = []) (hrx : s.rx.items = []) (hup : c.up.items = [])
    (hfin : c.finSeen = false) : Phase c s
  | both (hstate : s.state = .established) (hfin : c.finSeen = false) : Phase c s
  | peerDone (hstate : s.state = .closeWait) : Phase c s

/-- What every step keeps that has to lose nothing. -/
structure Kept (c : Conn) : Prop extends Carried c where
  /-- Without the socket there is nothing more to come, either way. -/
  gone : c.socket = none → c.eof = true ∧ c.up.items = []
  /-- The socket is in one of three phases. -/
  phase : ∀ s, c.socket = some s → Phase c s

section Pumping

variable {c c' : Conn} {s : Socket} {timedOut : Bool}

/-- A phase does not depend on what either end has done. -/
theorem Phase.same (h : Phase c s) (hready : c'.ready = c.ready) (hup : c'.up = c.up)
    (hfin : c'.finSeen = c.finSeen) : Phase c' s := by
  cases h with
  | early hstate hwaits htx hrx hnone hnot =>
    exact .early hstate (hready.trans hwaits) htx hrx (hup ▸ hnone) (hfin.trans hnot)
  | both hstate hnot => exact .both hstate (hfin.trans hnot)
  | peerDone hstate => exact .peerDone hstate

theorem tx_some (hs : c.socket = some s) : c.tx = s.tx.items := by rw [Conn.tx, hs]; rfl

theorem rx_some (hs : c.socket = some s) : c.rx = s.rx.items := by rw [Conn.rx, hs]; rfl

/-- What is received, and what is not, is what was there. -/
theorem piece_append (s : Socket) : s.piece ++ s.received.rx.items = s.rx.items := by
  unfold Socket.piece Socket.received
  split
  · exact s.rx.front_append_dequeue pieceSize
  · rfl

theorem received_tx (s : Socket) : s.received.tx = s.tx := by
  unfold Socket.received
  split <;> rfl

theorem received_state (s : Socket) : s.received.state = s.state := by
  unfold Socket.received
  split <;> rfl

theorem received_canSend (s : Socket) : s.received.canSend = s.canSend := by
  rw [Socket.canSend, Socket.canSend, Socket.maySend, Socket.maySend, received_state, received_tx]

/-- Nothing is left of what can be received at once. -/
theorem received_rx_eq_nil (h : s.rx.items.length ≤ pieceSize) :
    s.received.rx.items = [] := by
  unfold Socket.received
  split
  · exact Buffer.items_dequeue_eq_nil h
  · rename_i hrecv
    by_contra hne
    exact hrecv (by simp [Socket.canRecv, Socket.mayRecv, hne])

theorem keep_active (h : s.isActive = true) : c.keep s = { c with socket := some s } := by
  rw [Conn.keep, h]
  rfl

/-- A socket goes without a loss if nothing was in its buffers. -/
theorem carried_remove (hup : c.wrote = c.peerGot)
    (hdown : c.peerSent = c.got ++ (c.down.items ++ c.flight)) : Kept c.remove := by
  refine ⟨⟨?_, hdown, fun _ => rfl⟩, fun _ => ⟨rfl, rfl⟩, nofun⟩
  show c.wrote = c.peerGot ++ []
  rw [hup, List.append_nil]

/-- What the pump does with what the caller wrote. -/
theorem kept_send (hup : c.wrote = c.peerGot ++ (s.tx.items ++ c.up.items))
    (hdown : c.peerSent = c.got ++ (c.down.items ++ (s.rx.items ++ c.flight)))
    (heof : ¬ c.ends s timedOut → c.settled = true → c.eof = true)
    (hphase : s.state = .established ∧ c.finSeen = false ∨ s.state = .closeWait)
    (hfits : s.canSend = true → timedOut = false → (c.up.front pieceSize).length ≤ s.tx.room)
    (hcloses : c.ends s timedOut → s.tx.items = [] ∧ s.rx.items = []) :
    Kept (c.send s timedOut) := by
  have hactive : s.isActive = true := by
    rw [Socket.isActive]
    rcases hphase with ⟨heq, -⟩ | heq <;> rw [heq] <;> rfl
  have hmay : s.maySend = true := by
    rw [Socket.maySend]
    rcases hphase with ⟨heq, -⟩ | heq <;> rw [heq] <;> rfl
  have hopen {c' : Conn} {s' : Socket} (hstate : s'.state = s.state)
      (hfin : c'.finSeen = c.finSeen) : Phase c' s' := by
    rcases hphase with ⟨heq, hnot⟩ | heq
    · exact .both (hstate.trans heq) (hfin.trans hnot)
    · exact .peerDone (hstate.trans heq)
  have hstays (hnot : ¬ c.ends s timedOut) : Kept { c with socket := some s } :=
    ⟨⟨hup, hdown, heof hnot⟩, nofun, fun s' hs' => by
      cases hs'
      exact hopen rfl rfl⟩
  unfold Conn.send
  split
  · rename_i hsends
    obtain ⟨hcan, htimed⟩ := Bool.and_eq_true_iff.mp hsends
    have htimed : timedOut = false := by simpa using htimed
    split
    · rename_i hnothing
      split
      · rename_i hclosed
        obtain ⟨htx, hrx⟩ := hcloses ⟨hcan, htimed, hnothing, hclosed⟩
        rw [htx, hnothing, List.append_nil, List.append_nil] at hup
        rw [hrx, List.nil_append] at hdown
        exact carried_remove hup hdown
      · rename_i hclosed
        rw [keep_active hactive]
        exact hstays fun hends => hclosed hends.2.2.2
    · rename_i hsome
      have hslice : s.sendSlice (c.up.front pieceSize) =
          { s with tx := s.tx.enqueue (c.up.front pieceSize) } := if_pos hmay
      have htaken : ({ s with tx := s.tx.enqueue (c.up.front pieceSize) } : Socket).isActive =
          true := hactive
      rw [← c.up.front_append_dequeue pieceSize, ← List.append_assoc s.tx.items,
        ← Buffer.items_enqueue (hfits hcan htimed)] at hup
      rw [hslice, keep_active htaken]
      refine ⟨⟨hup, hdown, heof fun hends => hsome hends.2.2.1⟩, nofun, fun s' hs' => ?_⟩
      cases hs'
      exact hopen rfl rfl
  · rename_i hnot
    rw [keep_active hactive]
    exact hstays fun hends => hnot (by rw [hends.1, hends.2.1]; rfl)

/-- The pump loses nothing of a connection that is open, where nothing has to be lost. -/
theorem Kept.pump_open (h : Kept c) (hs : c.socket = some s) (hg : Gentle c s timedOut)
    (hphase : s.state = .established ∧ c.finSeen = false ∨ s.state = .closeWait)
    (hp : c.pump timedOut = some c') : Kept c' := by
  have hmay : s.maySend = true := by
    rw [Socket.maySend]
    rcases hphase with ⟨heq, -⟩ | heq <;> rw [heq] <;> rfl
  have hup := h.up
  have hdown := h.down
  rw [tx_some hs] at hup
  rw [rx_some hs] at hdown
  rw [Conn.pump, hs, Option.bind_some, hmay, Bool.not_true, Bool.and_false, Bool.false_and,
    if_neg (by decide)] at hp
  split at hp
  · cases hp
  · rename_i hroom
    cases hp
    refine kept_send ?_ ?_ ?_ ?_ ?_ ?_
    · rw [received_tx]
      exact hup
    · rw [← piece_append s, List.append_assoc, ← List.append_assoc c.down.items,
        ← Buffer.items_enqueue (Nat.not_lt.mp hroom)] at hdown
      exact hdown
    · intro hnot hsettled
      rcases Bool.or_eq_true_iff.mp hsettled with hwas | hnow
      · exact h.eof hwas
      · obtain ⟨hfin, hrx⟩ := Bool.and_eq_true_iff.mp hnow
        refine absurd (hg.last hfin (by simpa using hrx)) fun hends => hnot ?_
        exact ⟨(received_canSend s).trans hends.1, hends.2⟩
    · rw [received_state]
      exact hphase
    · rw [received_canSend, received_tx]
      exact hg.fits
    · intro hends
      have hwas : c.ends s timedOut := ⟨(received_canSend s).symm.trans hends.1, hends.2⟩
      obtain ⟨htx, hrx⟩ := hg.closes hwas
      rw [received_tx]
      exact ⟨htx, received_rx_eq_nil hrx⟩

/-- The pump loses nothing where nothing has to be lost. -/
theorem Kept.pump (h : Kept c) (hs : c.socket = some s) (hg : Gentle c s timedOut)
    (hp : c.pump timedOut = some c') : Kept c' := by
  have hwhole := hp
  rw [Conn.pump, hs, Option.bind_some] at hp
  cases h.phase s hs with
  | early hstate hready htx hrx hup hfin =>
    have hmay : s.maySend = false := by
      rw [Socket.maySend]
      rcases hstate with heq | heq <;> rw [heq] <;> rfl
    have hrecv : s.canRecv = false := by simp [Socket.canRecv, hrx]
    have hpiece : s.piece = [] := by rw [Socket.piece, hrecv]; rfl
    have hsame : s.received = s := by rw [Socket.received, hrecv]; rfl
    have hwrote := h.up
    have hsent := h.down
    rw [tx_some hs, htx, hup, List.append_nil, List.append_nil] at hwrote
    rw [rx_some hs, hrx, List.nil_append] at hsent
    split at hp
    · cases hp
      exact carried_remove hwrote hsent
    · rename_i hopen
      split at hp
      · cases hp
      · cases hp
        have hactive : s.isActive = true := by
          simpa [hready, hmay, Socket.isOpen, Socket.isActive] using hopen
        have hcan : s.canSend = false := by rw [Socket.canSend, hmay]; rfl
        rw [hsame, Conn.send, hcan, Bool.false_and, if_neg (by decide), keep_active hactive, hpiece]
        have hnone : (c.down.enqueue []).items = c.down.items := by
          rw [Buffer.items_enqueue (Nat.zero_le _), List.append_nil]
        refine ⟨⟨?_, ?_, ?_⟩, nofun, fun s' hs' => ?_⟩
        · have hwas := h.up
          rw [tx_some hs] at hwas
          exact hwas
        · have hwas := h.down
          rw [rx_some hs, ← hnone] at hwas
          exact hwas
        · simpa [hfin] using h.eof
        · cases hs'
          exact .early hstate (by simp [hready, hmay]) htx hrx hup hfin
  | both hstate hfin => exact h.pump_open hs hg (.inl ⟨hstate, hfin⟩) hwhole
  | peerDone hstate => exact h.pump_open hs hg (.inr hstate) hwhole

end Pumping

section Steps

variable {c c' : Conn} {s : Socket} {op : ConnOp} {n : ℕ}

/-- Nothing is lost between the peer and the socket. -/
theorem Kept.arrive (h : Kept c) (hg : c.gentle (.arrive n)) (hs : c.step (.arrive n) = some c') :
    Kept c' := by
  have hflight := List.take_append_drop n c.flight
  simp only [Conn.step] at hs
  split at hs
  · rename_i hnone
    cases hs
    have hsame : c.flight.drop n = c.flight := by
      rw [hg hnone, List.nil_append] at hflight
      exact hflight
    rw [hsame]
    exact h
  · rename_i s hsome
    split at hs
    · rename_i hroom
      cases hs
      have hup := h.up
      have hdown := h.down
      rw [tx_some hsome] at hup
      rw [rx_some hsome, ← hflight, ← List.append_assoc s.rx.items,
        ← Buffer.items_enqueue hroom.2] at hdown
      refine ⟨⟨hup, hdown, h.eof⟩, nofun, fun s' hs' => ?_⟩
      cases hs'
      cases h.phase s hsome with
      | early hstate =>
        rcases hstate with heq | heq <;> cases heq.symm.trans hroom.1
      | both hstate hfin => exact .both hstate hfin
      | peerDone hstate => exact .peerDone hstate
    · cases hs

theorem Kept.become (h : Kept c) (hs : c.socket = some s) {state : State} {fin met : Bool}
    (hphase : Phase { c with finSeen := fin } { s with state := state }) :
    Kept { c with socket := some { s with state := state }, finSeen := fin, met := met } := by
  have hup := h.up
  have hdown := h.down
  rw [tx_some hs] at hup
  rw [rx_some hs] at hdown
  refine ⟨⟨hup, hdown, h.eof⟩, nofun, fun s' hs' => ?_⟩
  cases hs'
  exact hphase.same rfl rfl rfl

/-- Every step that does not have to lose anything keeps everything. -/
theorem Kept.step (h : Kept c) (hg : c.gentle op) (hs : c.step op = some c') : Kept c' := by
  cases op with
  | write bytes =>
    simp only [Conn.step] at hs
    split at hs
    · rename_i hopen
      cases hs
      simp only [Bool.and_eq_true, Bool.not_eq_true', decide_eq_true_eq] at hopen
      obtain ⟨⟨⟨hsome, hready⟩, -⟩, hroom⟩ := hopen
      refine ⟨⟨?_, h.down, h.eof⟩, fun hnone => ?_, fun s hsock => ?_⟩
      · show c.wrote ++ bytes = c.peerGot ++ (c.tx ++ (c.up.enqueue bytes).items)
        rw [Buffer.items_enqueue hroom, h.up]
        simp only [List.append_assoc]
      · cases (congrArg Option.isSome hnone).symm.trans hsome
      · cases h.phase s hsock with
        | early hstate hwaits => cases hwaits.symm.trans hready
        | both hstate hfin => exact .both hstate hfin
        | peerDone hstate => exact .peerDone hstate
    · cases hs
  | finish =>
    simp only [Conn.step] at hs
    split at hs
    · cases hs
    · cases hs
      exact ⟨⟨h.up, h.down, h.eof⟩, h.gone, fun s hsock => (h.phase s hsock).same rfl rfl rfl⟩
  | read n =>
    cases hs
    have hdown := h.down
    rw [← c.down.front_append_dequeue n, List.append_assoc, ← List.append_assoc c.got] at hdown
    exact ⟨⟨h.up, hdown, h.eof⟩, h.gone, fun s hsock => (h.phase s hsock).same rfl rfl rfl⟩
  | establish =>
    obtain ⟨s, hsock, hs⟩ := Option.bind_eq_some_iff.mp hs
    split at hs
    · rename_i hsent
      cases hs
      cases h.phase s hsock with
      | early hstate hready htx hrx hup hfin => exact h.become hsock (.both rfl hfin)
      | both hstate => cases hsent.symm.trans hstate
      | peerDone hstate => cases hsent.symm.trans hstate
    · cases hs
  | refuse =>
    obtain ⟨s, hsock, hs⟩ := Option.bind_eq_some_iff.mp hs
    split at hs
    · rename_i hsent
      cases hs
      cases h.phase s hsock with
      | early hstate hready htx hrx hup hfin =>
        exact h.become hsock (.early (.inr rfl) hready htx hrx hup hfin)
      | both hstate => cases hsent.symm.trans hstate
      | peerDone hstate => cases hsent.symm.trans hstate
    · cases hs
  | deliver n =>
    obtain ⟨s, hsock, hs⟩ := Option.bind_eq_some_iff.mp hs
    split at hs
    · rename_i hmay
      cases hs
      have hup := h.up
      have hdown := h.down
      rw [tx_some hsock, ← s.tx.front_append_dequeue n, List.append_assoc,
        ← List.append_assoc c.peerGot] at hup
      rw [rx_some hsock] at hdown
      refine ⟨⟨hup, hdown, h.eof⟩, nofun, fun s' hs' => ?_⟩
      cases hs'
      cases h.phase s hsock with
      | early hstate =>
        have hnot : s.maySend = false := by
          rw [Socket.maySend]
          rcases hstate with heq | heq <;> rw [heq] <;> rfl
        cases hnot.symm.trans hmay
      | both hstate hfin => exact .both hstate hfin
      | peerDone hstate => exact .peerDone hstate
    · cases hs
  | peerSend bytes =>
    simp only [Conn.step] at hs
    split at hs
    · cases hs
      refine ⟨⟨h.up, ?_, h.eof⟩, h.gone, fun s hsock => (h.phase s hsock).same rfl rfl rfl⟩
      show c.peerSent ++ bytes = c.got ++ (c.down.items ++ (c.rx ++ (c.flight ++ bytes)))
      rw [h.down]
      simp only [List.append_assoc]
    · cases hs
  | peerFinish =>
    simp only [Conn.step] at hs
    split at hs
    · cases hs
      exact ⟨⟨h.up, h.down, h.eof⟩, h.gone, fun s hsock => (h.phase s hsock).same rfl rfl rfl⟩
    · cases hs
  | arrive n => exact h.arrive hg hs
  | finArrive =>
    obtain ⟨s, hsock, hs⟩ := Option.bind_eq_some_iff.mp hs
    split at hs
    · cases hs
      exact h.become hsock (.peerDone rfl)
    · cases hs
  | pump timedOut =>
    obtain ⟨s, hsock, -⟩ := Option.bind_eq_some_iff.mp hs
    exact h.pump hsock (hg s hsock) hs

theorem kept_dialled : Kept .dialled := by
  refine ⟨⟨rfl, rfl, nofun⟩, nofun, fun s hs => ?_⟩
  cases hs
  exact .early (.inl rfl) rfl rfl rfl rfl rfl

/-- All connections are kept. -/
def Sound (w : Tunnel) : Prop := ∀ (i : ℕ) (c : Conn), w.conns[i]? = some c → Kept c

theorem sound_step : Preserved Tunnel.step gentle Sound := by
  intro w op w' h hg hs
  cases op with
  | dial =>
    cases hs
    intro i c hc
    rcases concat_cases hc with hwas | ⟨-, rfl⟩
    · exact h i c hwas
    · exact kept_dialled
  | on i op =>
    obtain ⟨c, hc, hs⟩ := Option.bind_eq_some_iff.mp hs
    obtain ⟨c', hstep, rfl⟩ := Option.map_eq_some_iff.mp hs
    intro j c₁ hc₁
    rcases set_cases hc₁ with ⟨-, hwas⟩ | ⟨-, rfl⟩
    · exact h j c₁ hwas
    · exact (h i c hc).step (hg c hc) hstep

end Steps

section Samples

/-- A connection that is up. -/
def opened : List Op := [.dial, .on 0 .establish, .on 0 (.pump false)]

/-- The caller asks for something and gets an answer, and then closes its side. -/
def answered : List Op := opened ++
  [.on 0 (.write [71, 69, 84]), .on 0 (.pump false), .on 0 (.deliver 3),
    .on 0 (.peerSend [111, 107]), .on 0 (.arrive 2), .on 0 (.pump false), .on 0 (.read 2),
    .on 0 .finish, .on 0 (.pump false)]

/-- The caller writes something and closes its side before the peer has it. -/
def cutShort : List Op := opened ++
  [.on 0 (.write [71, 69, 84]), .on 0 .finish, .on 0 (.pump false), .on 0 (.pump false)]

/-- The connection after some steps. -/
def after (ops : List Op) : Conn := ((run Tunnel.step ⟨[]⟩ ops).bind (·.conns[0]?)).getD .dialled

end Samples

end FuryBrowser.TunnelPump
