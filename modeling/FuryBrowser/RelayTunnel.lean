import FuryBrowser.RelayForward
import FuryBrowser.RelayLeaks
import Mathlib.Data.List.GetD

/-!
# The bytes of a tunnel

Once a tunnel is there, each side is given what the other one sends. What came in the same block as
the client's head, or as the head an HTTP proxy answered with, is given to nobody. A SOCKS5 proxy's
answer is read to the byte.
-/

namespace FuryBrowser.ProfileRelay

open AgentDisk TextBytes TextLines RelayStreams ProgramRules

section Exact

variable {α : Type} {s t : Stream} {bytes : Bytes} {count turns : ℕ} {u : Unit}

theorem mapStop_ok {σ : Type} {f : Stop → Stop} {x : EStateM Stop σ α} {a : α} {s t : σ} :
    mapStop f x s = .ok a t ↔ x s = .ok a t := by
  unfold mapStop
  cases x s <;> simp

/-- What is read is taken from what arrives. -/
def Took (bytes : Bytes) (s t : Stream) : Prop :=
  bytes ++ t.arrivals.flatten = s.arrivals.flatten

theorem Took.nil (h : t.arrivals = s.arrivals) : Took [] s t := by
  rw [Took, h, List.nil_append]

theorem Took.append {more : Bytes} {mid : Stream} (h : Took bytes s mid) (h' : Took more mid t) :
    Took (bytes ++ more) s t := by
  rw [Took, List.append_assoc, h', h]

theorem writeAll_took (h : writeAll bytes s = .ok u t) : Took [] s t := by
  rw [writeAll_ok h]
  exact .nil rfl

/-- So many bytes are read, and no more. -/
theorem readExactUpTo_took (h : readExactUpTo turns count s = .ok bytes t)
    (hturns : count ≤ turns) : Took bytes s t ∧ bytes.length = count := by
  induction turns generalizing count s bytes with
  | zero =>
    obtain ⟨rfl, rfl⟩ := run_pure_ok.mp h
    exact ⟨.nil rfl, (Nat.le_zero.mp hturns).symm⟩
  | succ turns ih =>
    unfold readExactUpTo at h
    by_cases hcount : count = 0
    · rw [if_pos hcount] at h
      obtain ⟨rfl, rfl⟩ := run_pure_ok.mp h
      exact ⟨.nil rfl, hcount.symm⟩
    · rw [if_neg hcount] at h
      obtain ⟨block, mid, hblock, h⟩ := run_bind_ok.mp h
      by_cases hne : block = []
      · rw [if_pos hne] at h
        obtain ⟨_, _, h, _⟩ := run_bind_ok.mp h
        exact absurd h run_throw_ok
      · rw [if_neg hne] at h
        obtain ⟨rest, last, hrest, h⟩ := run_bind_ok.mp h
        obtain ⟨rfl, rfl⟩ := run_pure_ok.mp h
        obtain ⟨hnext, -⟩ := readBlock_ok hblock hne
        obtain ⟨hflat, hpos, hle⟩ := nextBlock_some (Nat.pos_of_ne_zero hcount) hnext
        obtain ⟨htook, hlen⟩ := ih hrest (by omega)
        have hfirst : Took block s mid := hflat
        refine ⟨hfirst.append htook, ?_⟩
        rw [List.length_append, hlen]
        omega

theorem readExact_took (h : readExact count s = .ok bytes t) :
    Took bytes s t ∧ bytes.length = count :=
  readExactUpTo_took h (Nat.le_refl count)

end Exact

section Socks

variable {s t : Stream} {auth : Option Credentials} {host : Text} {port : ℕ} {method kind : UInt8}
  {u : Unit}

/-- Where the answer of a SOCKS5 proxy ends: the method, the answer to a login if it asked for one,
and the answer to the request with the address the proxy is bound to. -/
def socksReplyEnd (sent : Bytes) : Option ℕ :=
  let start := if sent.getD 1 0 = 2 then 4 else 2
  let kind := sent.getD (start + 3) 0
  if kind = 1 then some (start + 4 + 6)
  else if kind = 3 then some (start + 4 + (1 + ((sent.getD (start + 4) 0).toNat + 2)))
  else if kind = 4 then some (start + 4 + 18)
  else none

theorem socksGreet_took (h : socksGreet auth s = .ok method t) :
    ∃ g, Took g s t ∧ g.length = 2 ∧ g.getD 1 0 = method := by
  obtain ⟨_, mid, hwrite, h⟩ := run_bind_ok.mp h
  obtain ⟨resp, mid', hresp, h⟩ := run_bind_ok.mp h
  obtain ⟨htook, hlen⟩ := readExact_took (mapStop_ok.mp hresp)
  by_cases hversion : resp.getD 0 0 ≠ 5
  · rw [if_pos hversion] at h
    obtain ⟨_, _, h, _⟩ := run_bind_ok.mp h
    exact absurd h run_throw_ok
  · rw [if_neg hversion] at h
    obtain ⟨rfl, rfl⟩ := run_pure_ok.mp h
    exact ⟨resp, (writeAll_took hwrite).append htook, hlen, rfl⟩

theorem socksLogin_took (h : socksLogin auth method s = .ok u t) :
    ∃ l, Took l s t ∧ l.length = if method = 2 then 2 else 0 := by
  unfold socksLogin at h
  by_cases hnone : method = 0
  · rw [if_pos hnone] at h
    obtain ⟨-, rfl⟩ := run_pure_ok.mp h
    exact ⟨[], .nil rfl, by simp [hnone]⟩
  · rw [if_neg hnone] at h
    by_cases hlogin : method = 2
    · rw [if_pos hlogin] at h
      cases auth with
      | none => exact absurd h run_throw_ok
      | some c =>
        obtain ⟨_, mid, hwrite, h⟩ := run_bind_ok.mp h
        obtain ⟨ar, mid', har, h⟩ := run_bind_ok.mp h
        obtain ⟨htook, hlen⟩ := readExact_took har
        by_cases hbad : ar.getD 1 0 ≠ 0
        · rw [if_pos hbad] at h
          exact absurd h run_throw_ok
        · rw [if_neg hbad] at h
          obtain ⟨-, rfl⟩ := run_pure_ok.mp h
          exact ⟨ar, (writeAll_took hwrite).append htook, by rw [hlen, if_pos hlogin]⟩
    · rw [if_neg hlogin] at h
      split at h
      · exact absurd h run_throw_ok
      · exact absurd h run_throw_ok

theorem socksRequest_took (h : socksRequest host port s = .ok kind t) :
    ∃ q, Took q s t ∧ q.length = 4 ∧ q.getD 3 0 = kind := by
  unfold socksRequest at h
  by_cases hlong : 255 < (bytesOf host).length
  · simp only [if_pos hlong] at h
    obtain ⟨_, _, h, _⟩ := run_bind_ok.mp h
    exact absurd h run_throw_ok
  · simp only [if_neg hlong] at h
    obtain ⟨_, mid, hwrite, h⟩ := run_bind_ok.mp h
    obtain ⟨head, mid', hhead, h⟩ := run_bind_ok.mp h
    obtain ⟨htook, hlen⟩ := readExact_took hhead
    by_cases hbad : head.getD 1 0 ≠ 0
    · rw [if_pos hbad] at h
      obtain ⟨_, _, h, _⟩ := run_bind_ok.mp h
      exact absurd h run_throw_ok
    · rw [if_neg hbad] at h
      obtain ⟨rfl, rfl⟩ := run_pure_ok.mp h
      exact ⟨head, (writeAll_took hwrite).append htook, hlen, rfl⟩

theorem socksSkip_took (h : socksSkip kind s = .ok u t) :
    ∃ b, Took b s t ∧ (kind = 1 ∧ b.length = 6 ∨
      kind = 3 ∧ b.length = 1 + ((b.getD 0 0).toNat + 2) ∨ kind = 4 ∧ b.length = 18) := by
  unfold socksSkip at h
  by_cases hfour : kind = 1
  · rw [if_pos hfour] at h
    obtain ⟨skip, mid, hskip, h⟩ := run_bind_ok.mp h
    obtain ⟨-, rfl⟩ := run_pure_ok.mp h
    obtain ⟨htook, hlen⟩ := readExact_took hskip
    exact ⟨skip, htook, .inl ⟨hfour, hlen⟩⟩
  · rw [if_neg hfour] at h
    by_cases hname : kind = 3
    · rw [if_pos hname] at h
      obtain ⟨len, mid, hlen, h⟩ := run_bind_ok.mp h
      obtain ⟨skip, mid', hskip, h⟩ := run_bind_ok.mp h
      obtain ⟨-, rfl⟩ := run_pure_ok.mp h
      obtain ⟨htook, hone⟩ := readExact_took hlen
      obtain ⟨htook', hmore⟩ := readExact_took hskip
      obtain ⟨n, rfl⟩ := List.length_eq_one_iff.mp hone
      refine ⟨[n] ++ skip, htook.append htook', .inr (.inl ⟨hname, ?_⟩)⟩
      rw [List.length_append, hmore]
      rfl
    · rw [if_neg hname] at h
      by_cases hsix : kind = 4
      · rw [if_pos hsix] at h
        obtain ⟨skip, mid, hskip, h⟩ := run_bind_ok.mp h
        obtain ⟨-, rfl⟩ := run_pure_ok.mp h
        obtain ⟨htook, hlen⟩ := readExact_took hskip
        exact ⟨skip, htook, .inr (.inr ⟨hsix, hlen⟩)⟩
      · rw [if_neg hsix] at h
        exact absurd h run_throw_ok

/-- The answer of a SOCKS5 proxy is read to its end, and no further. -/
theorem socks5Connect_took (h : socks5Connect host port auth s = .ok u t) :
    ∃ pos, socksReplyEnd s.arrivals.flatten = some pos ∧
      t.arrivals.flatten = s.arrivals.flatten.drop pos := by
  obtain ⟨method, s₁, hgreet, h⟩ := run_bind_ok.mp h
  obtain ⟨_, s₂, hlogin, h⟩ := run_bind_ok.mp h
  obtain ⟨kind, s₃, hrequest, hskip⟩ := run_bind_ok.mp h
  obtain ⟨g, hg, hglen, hmethod⟩ := socksGreet_took hgreet
  obtain ⟨l, hl, hllen⟩ := socksLogin_took hlogin
  obtain ⟨q, hq, hqlen, hkind⟩ := socksRequest_took hrequest
  obtain ⟨b, hb, hblen⟩ := socksSkip_took hskip
  have hall : (g ++ l) ++ (q ++ (b ++ t.arrivals.flatten)) = s.arrivals.flatten := by
    have htook := ((hg.append hl).append hq).append hb
    rw [Took, List.append_assoc, List.append_assoc] at htook
    exact htook
  have hfront : (g ++ l).length = if s.arrivals.flatten.getD 1 0 = 2 then 4 else 2 := by
    have hchosen : s.arrivals.flatten.getD 1 0 = method := by
      rw [← hall, List.append_assoc, List.getD_append _ _ _ _ (by omega), hmethod]
    rw [hchosen, List.length_append, hglen, hllen]
    split <;> rfl
  have hbound : s.arrivals.flatten.getD ((g ++ l).length + 3) 0 = kind := by
    rw [← hall, List.getD_append_right _ _ _ _ (Nat.le_add_right _ _), Nat.add_sub_cancel_left,
      List.getD_append _ _ _ _ (by omega), hkind]
  have hname : b ≠ [] → s.arrivals.flatten.getD ((g ++ l).length + 4) 0 = b.getD 0 0 := by
    intro hne
    rw [← hall, List.getD_append_right _ _ _ _ (Nat.le_add_right _ _), Nat.add_sub_cancel_left,
      List.getD_append_right _ _ _ _ (Nat.le_of_eq hqlen), hqlen,
      List.getD_append _ _ _ _ (List.length_pos_of_ne_nil hne)]
  have hend : socksReplyEnd s.arrivals.flatten = some ((g ++ l).length + 4 + b.length) := by
    unfold socksReplyEnd
    rw [← hfront]
    dsimp only
    rw [hbound]
    rcases hblen with ⟨rfl, hlen⟩ | ⟨rfl, hlen⟩ | ⟨rfl, hlen⟩
    · rw [if_pos rfl, hlen]
    · have hne : b ≠ [] := by
        rintro rfl
        simp at hlen
      rw [if_neg (by decide), if_pos rfl, hname hne, hlen]
    · rw [if_neg (by decide), if_neg (by decide), if_pos rfl, hlen]
  refine ⟨_, hend, ?_⟩
  have hshape : s.arrivals.flatten = ((g ++ l) ++ (q ++ b)) ++ t.arrivals.flatten := by
    rw [← hall, List.append_assoc, List.append_assoc, List.append_assoc, List.append_assoc]
  have hcount : (g ++ l ++ (q ++ b)).length = (g ++ l).length + 4 + b.length := by
    simp only [List.length_append, hqlen]
    omega
  rw [hshape, List.drop_left' hcount]

end Socks

section Tunnels

variable {relay : Relay} {w : Session} {s t : Stream} {host : Text} {port : ℕ}
  {auth : Option Credentials}

/-- The answer of an HTTP proxy is read to the end of a block. -/
theorem httpConnect_took {u : Unit} (h : httpConnect host port auth s = .ok u t) :
    ∃ pos leftover, findHeadersEnd s.arrivals.flatten = some pos ∧
      leftover ++ t.arrivals.flatten = s.arrivals.flatten.drop pos ∧
      (leftover = [] ↔ blockEndsAt 1024 s.arrivals pos = true) := by
  obtain ⟨_, mid, hwrite, h⟩ := run_bind_ok.mp h
  obtain ⟨⟨head, leftover⟩, mid', hread, h⟩ := run_bind_ok.mp h
  have hmid : mid.arrivals = s.arrivals := by rw [writeAll_ok (mapStop_ok.mp hwrite)]
  obtain ⟨pos, hpos, -, hleft, hempty, -⟩ := readRequestHead_ok (mapStop_ok.mp hread)
  rw [hmid] at hpos hleft hempty
  have hsame : t = mid' := by
    cases hanswer : connectAnswer host port head with
    | ok u =>
      simp only [hanswer] at h
      exact (run_pure_ok.mp h).2.symm
    | error stop =>
      simp only [hanswer] at h
      exact absurd h run_throw_ok
  exact ⟨pos, leftover, hpos, by rw [hsame]; exact hleft, hempty⟩

/-- Where the answer of the proxy ends. -/
def Upstream.replyEnd (upstream : Upstream) (sent : Bytes) : Option ℕ :=
  match upstream with
  | .http _ _ _ => findHeadersEnd sent
  | .socks5 _ _ _ => socksReplyEnd sent
  | .direct => none
  | .wireGuard => none

/-- The proxy's connection, where the session makes a tunnel over one. -/
def Relay.tunnels (relay : Relay) (w : Session) : Option Stream :=
  match readRequestHead w.client, relay.upstream.proxy with
  | .ok (head, leftover) s, some (phost, pport) =>
    match parseRequestLine head, relay.serve head leftover { w with client := s } with
    | some (method, target), .ok true _ =>
      match relay.verdict method target head with
      | .reach _ _ false =>
        match connectUpstream phost pport w.net with
        | .ok up _ => if method = "CONNECT".toList then some up else none
        | .error _ _ => none
      | _ => none
    | _, _ => none
  | _, _ => none

theorem tunnels_some {up : Stream} (h : relay.tunnels w = some up) :
    ∃ head leftover s method target host port w' phost pport net,
      readRequestHead w.client = .ok (head, leftover) s ∧
      relay.upstream.proxy = some (phost, pport) ∧
      parseRequestLine head = some (method, target) ∧
      relay.serve head leftover { w with client := s } = .ok true w' ∧
      relay.verdict method target head = .reach host port false ∧
      connectUpstream phost pport w.net = .ok up net ∧ method = "CONNECT".toList := by
  unfold Relay.tunnels at h
  split at h
  · rename_i head leftover s phost pport hread hproxy
    split at h
    · rename_i method target w' hline hserve
      split at h
      · rename_i host port hverdict
        split at h
        · rename_i up' net hconnect
          split at h
          · rename_i hmethod
            cases h
            exact ⟨head, leftover, s, method, target, host, port, w', phost, pport, net, hread,
              hproxy, hline, hserve, hverdict, hconnect, hmethod⟩
          · cases h
        · cases h
      · cases h
    · cases h
  · cases h

/-- Each side of a tunnel was given what the other one sent after its head. -/
structure Transparent (relay : Relay) (w : Session) (up : Stream) : Prop where
  upstream : ∃ pos, findHeadersEnd w.client.arrivals.flatten = some pos ∧
    (leaves relay.handleClient w).upstream.written = w.client.arrivals.flatten.drop pos
  /-- The client, which was told that the tunnel is there. -/
  client : ∃ pos, relay.upstream.replyEnd up.arrivals.flatten = some pos ∧
    (leaves relay.handleClient w).client.written =
      w.client.written ++ established ++ up.arrivals.flatten.drop pos

/-- The network, or the reader's room of 1024 bytes, cut what the client sent at the end of its
head, and what an HTTP proxy sent at the end of its own. -/
structure CutAtHeads (relay : Relay) (w : Session) (up : Stream) : Prop where
  client : ∀ pos, findHeadersEnd w.client.arrivals.flatten = some pos →
    blockEndsAt 1024 w.client.arrivals pos = true
  proxy : ∀ host port auth, relay.upstream = .http host port auth →
    ∀ pos, findHeadersEnd up.arrivals.flatten = some pos → blockEndsAt 1024 up.arrivals pos = true

/-- What is left of the proxy's answer once the tunnel is there. -/
theorem dial_tunnel {phost : Text} {pport : ℕ} {net net' net'' : Net} {up s : Stream}
    (hproxy : relay.upstream.proxy = some (phost, pport))
    (hup : connectUpstream phost pport net = .ok up net')
    (h : relay.dial host port net = .ok s net'') :
    ∃ pos leftover, relay.upstream.replyEnd up.arrivals.flatten = some pos ∧
      leftover ++ s.arrivals.flatten = up.arrivals.flatten.drop pos ∧
      (leftover = [] ↔ ∀ host port auth, relay.upstream = .http host port auth →
        blockEndsAt 1024 up.arrivals pos = true) := by
  have hafter {x : Talk Unit} {net net' : Net} {t : Stream} (h : after x up net = .ok t net') :
      ∃ last, x up = .ok () last ∧ t.arrivals = last.arrivals := by
    unfold after at h
    cases hx : x up with
    | ok u last =>
      rw [hx] at h
      obtain ⟨rfl, -⟩ := run_pure_ok.mp h
      exact ⟨last, rfl, rfl⟩
    | error e last =>
      rw [hx] at h
      exact absurd h run_throw_ok
  unfold Relay.dial at h
  cases hkind : relay.upstream with
  | http host' port' auth =>
    rw [hkind] at h hproxy
    cases hproxy
    obtain ⟨up', mid, hup', h⟩ := run_bind_ok.mp h
    rw [hup] at hup'
    cases hup'
    obtain ⟨last, hlast, hsame⟩ := hafter h
    obtain ⟨pos, leftover, hpos, hleft, hempty⟩ := httpConnect_took (mapStop_ok.mp hlast)
    refine ⟨pos, leftover, hpos, by rw [hsame]; exact hleft, hempty.trans ⟨?_, ?_⟩⟩
    · exact fun hcut _ _ _ _ => hcut
    · exact fun hcut => hcut _ _ _ rfl
  | socks5 host' port' auth =>
    rw [hkind] at h hproxy
    cases hproxy
    obtain ⟨up', mid, hup', h⟩ := run_bind_ok.mp h
    rw [hup] at hup'
    cases hup'
    obtain ⟨last, hlast, hsame⟩ := hafter h
    obtain ⟨pos, hpos, hrest⟩ := socks5Connect_took (mapStop_ok.mp hlast)
    refine ⟨pos, [], hpos, by rw [hsame, List.nil_append]; exact hrest, ?_⟩
    exact ⟨fun _ _ _ _ hother => (by cases hother), fun _ => rfl⟩
  | direct =>
    rw [hkind] at hproxy
    cases hproxy
  | wireGuard =>
    rw [hkind] at hproxy
    cases hproxy

/-- What the two sides of a tunnel are given, beside what is lost. -/
theorem tunnel_written {up : Stream} (h : relay.tunnels w = some up) (hwhole : w.failure = none) :
    ∃ pos pos' lost lost' rest rest', findHeadersEnd w.client.arrivals.flatten = some pos ∧
      relay.upstream.replyEnd up.arrivals.flatten = some pos' ∧
      lost ++ rest = w.client.arrivals.flatten.drop pos ∧
      lost' ++ rest' = up.arrivals.flatten.drop pos' ∧
      (leaves relay.handleClient w).upstream.written = rest ∧
      (leaves relay.handleClient w).client.written = w.client.written ++ established ++ rest' ∧
      (lost = [] ↔ blockEndsAt 1024 w.client.arrivals pos = true) ∧
      (lost' = [] ↔ ∀ host port auth, relay.upstream = .http host port auth →
        blockEndsAt 1024 up.arrivals pos' = true) := by
  obtain ⟨head, leftover, s, method, target, host, port, w', phost, pport, net, hread, hproxy,
    hline, hserve, hverdict, hup, rfl⟩ := tunnels_some h
  obtain ⟨pos, hpos, -, hleft, hempty, hs⟩ := readRequestHead_ok hread
  obtain ⟨method', target', host', port', isLocal, s', net', hline', hverdict', hconnect, hgreet⟩ :=
    serve_true hserve
  rw [hline] at hline'
  cases hline'
  rw [hverdict] at hverdict'
  cases hverdict'
  have hdial : relay.dial host port w.net = .ok s' net' := hconnect
  obtain ⟨pos', lost', hpos', hleft', hempty'⟩ := dial_tunnel hproxy hup hdial
  obtain ⟨faults, hw'⟩ := greet_connect hgreet
  obtain ⟨hupstream, hclient⟩ := leaves_copyBidirectional (w := w') (by rw [hw']; exact hwhole)
  refine ⟨pos, pos', leftover, lost', s.arrivals.flatten, s'.arrivals.flatten, hpos, hpos', hleft,
    hleft', ?_, ?_, hempty, hempty'⟩
  · rw [leaves_handleClient hread hserve, hupstream, hw', connect_written hconnect,
      List.nil_append]
  · rw [leaves_handleClient hread hserve, hclient, hw', hs]

/-- A tunnel loses nothing exactly where the two heads were cut at their ends. -/
theorem tunnel_transparent_iff {up : Stream} (h : relay.tunnels w = some up)
    (hwhole : w.failure = none) : Transparent relay w up ↔ CutAtHeads relay w up := by
  obtain ⟨pos, pos', lost, lost', rest, rest', hpos, hpos', hsent, hanswered, hupstream, hclient,
    hlost, hlost'⟩ := tunnel_written h hwhole
  have hnone {lost rest whole : Bytes} (hwhole : lost ++ rest = whole) :
      rest = whole ↔ lost = [] := by
    rw [← hwhole]
    exact List.self_eq_append_left
  have hproxy : (∀ host port auth, relay.upstream = .http host port auth →
      blockEndsAt 1024 up.arrivals pos' = true) ↔
      ∀ host port auth, relay.upstream = .http host port auth →
        ∀ p, findHeadersEnd up.arrivals.flatten = some p →
          blockEndsAt 1024 up.arrivals p = true := by
    refine forall_congr' fun host => forall_congr' fun port => forall_congr' fun auth =>
      forall_congr' fun hhttp => ?_
    have hfound : findHeadersEnd up.arrivals.flatten = some pos' := by
      rw [hhttp] at hpos'
      exact hpos'
    rw [hfound]
    simp
  constructor
  · rintro ⟨⟨p, hp, hgiven⟩, q, hq, htold⟩
    rw [hpos] at hp
    cases hp
    rw [hpos'] at hq
    cases hq
    rw [hupstream] at hgiven
    rw [hclient] at htold
    refine ⟨fun p hp => ?_, hproxy.mp (hlost'.mp ((hnone hanswered).mp ?_))⟩
    · rw [hpos] at hp
      cases hp
      exact hlost.mp ((hnone hsent).mp hgiven)
    · exact List.append_cancel_left htold
  · rintro ⟨hcut, hcut'⟩
    refine ⟨⟨pos, hpos, ?_⟩, pos', hpos', ?_⟩
    · rw [hupstream, (hnone hsent).mpr (hlost.mpr (hcut pos hpos))]
    · rw [hclient, (hnone hanswered).mpr (hlost'.mpr (hproxy.mpr hcut'))]

end Tunnels

section Early

/-- A relay over an HTTP proxy. -/
def proxyRelay : Relay := { directRelay with upstream := .http "198.51.100.7".toList 8080 none }

/-- A proxy that takes every target. -/
def takingProxy : Stream := ⟨[utf8 "HTTP/1.1 200 OK\r\n\r\n", utf8 "hello"], .closed, [], []⟩

/-- A client of a tunnel, with what it sends in these pieces. -/
def tunnelSession (pieces : List Bytes) : Session where
  client := ⟨pieces, .closed, [], []⟩
  upstream := ⟨[], .silent, [], []⟩
  net := ⟨[], [.connected takingProxy], [], [], []⟩
  failure := none

/-- A client that waits for the tunnel. -/
def patientSession : Session :=
  tunnelSession [utf8 "CONNECT a.example:443 HTTP/1.1\r\n\r\n", utf8 "hi"]

/-- A client that does not. -/
def eagerSession : Session := tunnelSession [utf8 "CONNECT a.example:443 HTTP/1.1\r\n\r\nhi"]

theorem tunnel_transparent_patient : Transparent proxyRelay patientSession takingProxy ↔
    CutAtHeads proxyRelay patientSession takingProxy :=
  tunnel_transparent_iff (by decide +kernel) rfl

/-- What a client sends before the tunnel is there is given to nobody. -/
theorem early_bytes_lost : ¬∀ (relay : Relay) (w : Session) (up : Stream),
    relay.tunnels w = some up → w.failure = none → Transparent relay w up := by
  intro hall
  obtain ⟨pos, hpos, hgiven⟩ :=
    (hall proxyRelay eagerSession takingProxy (by decide +kernel) rfl).upstream
  have hnone : (leaves proxyRelay.handleClient eagerSession).upstream.written = [] := by
    decide +kernel
  have hend : findHeadersEnd eagerSession.client.arrivals.flatten = some 34 := by decide +kernel
  rw [hend] at hpos
  cases hpos
  rw [hnone] at hgiven
  revert hgiven
  decide +kernel

end Early

end FuryBrowser.ProfileRelay
