import FuryBrowser.RelayHeads

/-!
# What a session comes to

Up to the copying a session has done one thing: it was given a connection with nothing written to
it, and said what is said first. The copying adds to either side what the other one sent.
-/

namespace FuryBrowser.ProfileRelay

open AgentDisk TextBytes TextLines RelayStreams ProgramRules

section Serving

variable {relay : Relay} {head : Text} {leftover : Bytes} {w w' : Session}

/-- A connection comes with nothing written to it. -/
theorem connectTo_written {host : Text} {port : ℕ} {all : List IpAddress.IpAddr} {last : IoError}
    {net net' : Net} {s : Stream} (h : connectTo host port all last net = .ok s net') :
    s.written = [] := by
  induction all generalizing last net with
  | nil => exact absurd h run_throw_ok
  | cons address rest ih =>
    obtain ⟨_, _, _, h⟩ := run_bind_ok.mp h
    obtain ⟨attempt, mid, _, h⟩ := run_bind_ok.mp h
    cases attempt with
    | connected s' =>
      obtain ⟨rfl, -⟩ := run_pure_ok.mp h
      rfl
    | failed e => exact ih h
    | elapsed => exact absurd h run_throw_ok

theorem after_written {x : Talk Unit} {s t : Stream} {net net' : Net}
    (h : after x s net = .ok t net') : t.written = [] := by
  unfold after at h
  cases hx : x s with
  | ok u mid =>
    rw [hx] at h
    obtain ⟨rfl, -⟩ := run_pure_ok.mp h
    rfl
  | error e mid =>
    rw [hx] at h
    exact absurd h run_throw_ok

theorem dialLocal_written {host : Text} {port : ℕ} {net net' : Net} {s : Stream}
    (h : dialLocal host port net = .ok s net') : s.written = [] := by
  obtain ⟨all, mid, _, h⟩ := run_bind_ok.mp h
  split at h
  · obtain ⟨_, _, h, _⟩ := run_bind_ok.mp h
    exact absurd h run_throw_ok
  · exact connectTo_written h

theorem dial_written {host : Text} {port : ℕ} {net net' : Net} {s : Stream}
    (h : relay.dial host port net = .ok s net') : s.written = [] := by
  unfold Relay.dial at h
  cases hup : relay.upstream with
  | http phost pport auth =>
    rw [hup] at h
    obtain ⟨_, _, _, h⟩ := run_bind_ok.mp h
    exact after_written h
  | socks5 phost pport auth =>
    rw [hup] at h
    obtain ⟨_, _, _, h⟩ := run_bind_ok.mp h
    exact after_written h
  | direct =>
    rw [hup] at h
    obtain ⟨all, _, _, h⟩ := run_bind_ok.mp h
    cases hbad : if relay.allowLocal then none else all.find? isLocalIp with
    | some a =>
      rw [hbad] at h
      exact absurd h run_throw_ok
    | none =>
      rw [hbad] at h
      exact connectTo_written h
  | wireGuard =>
    rw [hup] at h
    obtain ⟨answer, _, _, h⟩ := run_bind_ok.mp h
    cases answer with
    | error why => exact absurd h run_throw_ok
    | ok address =>
      obtain ⟨_, _, _, h⟩ := run_bind_ok.mp h
      obtain ⟨attempt, _, _, h⟩ := run_bind_ok.mp h
      cases attempt with
      | error why => exact absurd h run_throw_ok
      | ok s' =>
        obtain ⟨rfl, -⟩ := run_pure_ok.mp h
        rfl

theorem connect_written {host : Text} {port : ℕ} {isLocal : Bool} {net net' : Net} {s : Stream}
    (h : relay.connect host port isLocal net = .ok s net') : s.written = [] := by
  unfold Relay.connect at h
  split at h
  · exact dialLocal_written h
  · exact dial_written h

theorem reach_ok {host : Text} {port : ℕ} {isLocal : Bool} {u : Unit}
    (h : relay.reach host port isLocal w = .ok u w') :
    ∃ s net, relay.connect host port isLocal w.net = .ok s net ∧
      w' = { w with upstream := s, net := net } := by
  unfold Relay.reach onNet at h
  cases hrun : relay.connect host port isLocal w.net with
  | ok s net =>
    rw [hrun] at h
    cases h
    exact ⟨s, net, rfl, rfl⟩
  | error e net =>
    rw [hrun] at h
    obtain ⟨_, _, _, h⟩ := run_bind_ok.mp h
    exact absurd h run_throw_ok

/-- What a session has come to when the copying begins. -/
theorem serve_true (h : relay.serve head leftover w = .ok true w') :
    ∃ method target host port isLocal s net, parseRequestLine head = some (method, target) ∧
      relay.verdict method target head = .reach host port isLocal ∧
      relay.connect host port isLocal w.net = .ok s net ∧
      greet method head leftover { w with upstream := s, net := net } = .ok () w' := by
  unfold Relay.serve at h
  cases hline : parseRequestLine head with
  | none =>
    rw [hline] at h
    exact absurd h run_throw_ok
  | some line =>
    obtain ⟨method, target⟩ := line
    rw [hline] at h
    dsimp only at h
    cases hverdict : relay.verdict method target head with
    | page route =>
      rw [hverdict] at h
      obtain ⟨_, _, _, h⟩ := run_bind_ok.mp h
      obtain ⟨_, _, _, h⟩ := run_bind_ok.mp h
      cases (run_pure_ok.mp h).1
    | malformed =>
      rw [hverdict] at h
      exact absurd h run_throw_ok
    | blocked =>
      rw [hverdict] at h
      obtain ⟨_, _, _, h⟩ := run_bind_ok.mp h
      cases (run_pure_ok.mp h).1
    | notHere =>
      rw [hverdict] at h
      obtain ⟨_, _, _, h⟩ := run_bind_ok.mp h
      cases (run_pure_ok.mp h).1
    | reach host port isLocal =>
      rw [hverdict] at h
      obtain ⟨_, mid, hreach, h⟩ := run_bind_ok.mp h
      obtain ⟨s, net, hconnect, rfl⟩ := reach_ok hreach
      obtain ⟨_, mid, hgreet, h⟩ := run_bind_ok.mp h
      obtain ⟨-, rfl⟩ := run_pure_ok.mp h
      exact ⟨method, target, host, port, isLocal, s, net, rfl, hverdict, hconnect, hgreet⟩

end Serving

section Copying

variable {α : Type} {w w' : Session} {a : α} {s t : Stream} {bytes : Bytes}

theorem writeAll_ok {u : Unit} (h : writeAll bytes s = .ok u t) :
    t = { s with written := s.written ++ bytes, faults := s.faults.tail } := by
  unfold writeAll at h
  split at h
  · cases h
  · rename_i hfaults
    cases h
    rw [hfaults]
    rfl
  · rename_i hfaults
    cases h
    rw [hfaults]
    rfl

theorem writeAll_free (h : s.faults = []) :
    writeAll bytes s = .ok () { s with written := s.written ++ bytes } := by
  simp only [writeAll, h]

theorem onClient_ok {x : Talk α} (h : onClient x w = .ok a w') :
    ∃ s, x w.client = .ok a s ∧ w' = { w with client := s } := by
  unfold onClient at h
  cases hx : x w.client with
  | ok b s =>
    rw [hx] at h
    cases h
    exact ⟨s, rfl, rfl⟩
  | error e s =>
    rw [hx] at h
    cases h

theorem onUpstream_ok {x : Talk α} (h : onUpstream x w = .ok a w') :
    ∃ s, x w.upstream = .ok a s ∧ w' = { w with upstream := s } := by
  unfold onUpstream at h
  cases hx : x w.upstream with
  | ok b s =>
    rw [hx] at h
    cases h
    exact ⟨s, rfl, rfl⟩
  | error e s =>
    rw [hx] at h
    cases h

theorem onUpstream_free (h : w.upstream.faults = []) :
    onUpstream (writeAll bytes) w =
      .ok () { w with upstream := { w.upstream with written := w.upstream.written ++ bytes } } := by
  simp only [onUpstream, writeAll_free h]

/-- A plain request is written with what came with its head, and nothing else happens. -/
theorem greet_plain {method head : Text} {leftover : Bytes} {u : Unit}
    (hplain : method ≠ "CONNECT".toList) (h : greet method head leftover w = .ok u w') :
    ∃ faults, w' = { w with upstream :=
      { w.upstream with
        written := w.upstream.written ++ bytesOf (stripProxyHeaders head) ++ leftover
        faults := faults } } := by
  unfold greet at h
  rw [if_neg hplain] at h
  obtain ⟨_, mid, hhead, h⟩ := run_bind_ok.mp h
  obtain ⟨s, hs, rfl⟩ := onUpstream_ok hhead
  rw [writeAll_ok hs] at h
  by_cases hleft : leftover = []
  · rw [if_neg (by simpa using hleft)] at h
    obtain ⟨-, rfl⟩ := run_pure_ok.mp h
    exact ⟨_, by rw [hleft, List.append_nil]⟩
  · rw [if_pos hleft] at h
    obtain ⟨t, ht, rfl⟩ := onUpstream_ok h
    rw [writeAll_ok ht]
    exact ⟨_, rfl⟩

/-- The client of a tunnel is told so, and nothing else happens. -/
theorem greet_connect {head : Text} {leftover : Bytes} {u : Unit}
    (h : greet "CONNECT".toList head leftover w = .ok u w') :
    ∃ faults, w' = { w with client :=
      { w.client with written := w.client.written ++ established, faults := faults } } := by
  unfold greet at h
  rw [if_pos rfl] at h
  obtain ⟨s, hs, rfl⟩ := onClient_ok h
  exact ⟨_, by rw [writeAll_ok hs]⟩

/-- Copying that does not break off adds to either side what the other one sent. -/
theorem leaves_copyBidirectional (hwhole : w.failure = none) :
    (leaves copyBidirectional w).upstream.written =
        w.upstream.written ++ w.client.arrivals.flatten ∧
      (leaves copyBidirectional w).client.written =
        w.client.written ++ w.upstream.arrivals.flatten := by
  unfold leaves copyBidirectional
  simp only [hwhole, List.take_length]
  cases w.client.ending <;> cases w.upstream.ending <;> exact ⟨rfl, rfl⟩

/-- The session goes on with the copying. -/
theorem leaves_handleClient {relay : Relay} {head : Text} {leftover : Bytes}
    (hread : readRequestHead w.client = .ok (head, leftover) s)
    (hserve : relay.serve head leftover { w with client := s } = .ok true w') :
    leaves relay.handleClient w = leaves copyBidirectional w' := by
  have hrun : relay.proceed head leftover { w with client := s } = copyBidirectional w' := by
    change EStateM.bind (relay.serve head leftover) _ _ = _
    simp only [EStateM.bind, hserve]
    rfl
  rw [leaves, leaves, handleClient_ok hread, hrun]

end Copying

section Unreached

variable {relay : Relay} {head : Text} {leftover : Bytes} {w : Session}

theorem leaves_onClient_bind {α β : Type} (x : Talk α) {f : α → SessionOp β}
    (hf : ∀ a w, (leaves (f a) w).upstream = w.upstream) (w : Session) :
    (leaves (onClient x >>= f) w).upstream = w.upstream := by
  change (leaves (EStateM.bind (onClient x) f) w).upstream = _
  unfold leaves EStateM.bind onClient
  cases x w.client with
  | ok a s => exact hf a { w with client := s }
  | error e s => rfl

theorem leaves_refuse_upstream (status : Text) (w : Session) :
    (leaves (refuse status) w).upstream = w.upstream := by
  obtain ⟨s, hs⟩ := leaves_refuse status w
  rw [hs]

variable (leftover) in
/-- A request that is given no connection leaves the far side alone. -/
theorem serve_unreached (h : ∀ method target host port isLocal s net,
    parseRequestLine head = some (method, target) →
    relay.verdict method target head = .reach host port isLocal →
    relay.connect host port isLocal w.net ≠ .ok s net) :
    (leaves (relay.serve head leftover) w).upstream = w.upstream := by
  unfold Relay.serve
  cases hline : parseRequestLine head with
  | none => rfl
  | some line =>
    obtain ⟨method, target⟩ := line
    dsimp only
    cases hverdict : relay.verdict method target head with
    | page route =>
      refine leaves_onClient_bind _ (fun _ w => ?_) w
      exact leaves_onClient_bind _ (fun _ _ => rfl) w
    | malformed => rfl
    | blocked => exact leaves_refuse_upstream _ w
    | notHere => exact leaves_refuse_upstream _ w
    | reach host port isLocal =>
      cases hconnect : relay.connect host port isLocal w.net with
      | ok s net => exact absurd hconnect (h method target host port isLocal s net hline hverdict)
      | error e net =>
        have hreach : relay.reach host port isLocal w =
            .error e (leaves (refuse "502 Bad Gateway".toList) { w with net := net }) := by
          simp only [Relay.reach, onNet, hconnect]
          rfl
        change (leaves (EStateM.bind (relay.reach host port isLocal) _) w).upstream = _
        unfold leaves EStateM.bind
        rw [hreach]
        exact leaves_refuse_upstream _ _

theorem proceed_unreached (h : ∀ method target host port isLocal s net,
    parseRequestLine head = some (method, target) →
    relay.verdict method target head = .reach host port isLocal →
    relay.connect host port isLocal w.net ≠ .ok s net) :
    (leaves (relay.proceed head leftover) w).upstream = w.upstream := by
  have hserve := serve_unreached leftover h
  change (leaves (EStateM.bind (relay.serve head leftover) _) w).upstream = _
  unfold leaves EStateM.bind at *
  cases hrun : relay.serve head leftover w with
  | ok going w' =>
    rw [hrun] at hserve
    cases going with
    | true =>
      obtain ⟨method, target, host, port, isLocal, s, net, hline, hverdict, hconnect, -⟩ :=
        serve_true hrun
      exact absurd hconnect (h method target host port isLocal s net hline hverdict)
    | false => exact hserve
  | error e w' =>
    rw [hrun] at hserve
    exact hserve

end Unreached

end FuryBrowser.ProfileRelay
