import FuryBrowser.ProfileRelay

/-!
# What a relay opens

With a proxy for its upstream, a relay opens sockets to the proxy only, or, for a host that a list
of the local network names and no list refuses, to private addresses the host resolved to. For a
host it refuses it opens none. This holds of every session, however it ends.
-/

namespace FuryBrowser.ProfileRelay

open AgentDisk TextBytes TextLines IpAddress DomainLists RelayStreams ProgramRules

section Property

/-- The address of the proxy. -/
def Upstream.proxy : Upstream → Option (Text × ℕ)
  | .http host port _ => some (host, port)
  | .socks5 host port _ => some (host, port)
  | .direct => none
  | .wireGuard => none

/-- The host is refused: by the lists, or because it is on this machine or its network. -/
def Relay.refuses (relay : Relay) (host : Text) : Bool :=
  relay.blocked.blocks host || (!relay.blocked.reachedLocally host && isLocalTarget host)

/-- What the client asks for. -/
def requestedBy (w : Session) : Option (Text × ℕ) :=
  match readRequestHead w.client with
  | .ok (head, _) _ =>
    (parseRequestLine head).bind fun (method, target) => requested method target head
  | .error _ _ => none

/-- A relay did no more than it may for a target. -/
structure Contained (relay : Relay) (target : Option (Text × ℕ)) (events : List Event) : Prop where
  /-- A socket was opened to an address that the proxy's name resolved to, or that the target did,
  where a list of the local network names it, none refuses it, and it resolved to private
  addresses only. -/
  sockets : ∀ host port address, .opened host port address ∈ events →
    ∃ all, .resolved host port all ∈ events ∧ address ∈ all ∧
      (relay.upstream.proxy = some (host, port) ∨
        target = some (host, port) ∧ relay.blocked.reachedLocally host = true ∧
          relay.blocked.blocks host = false ∧ ∀ a ∈ all, isPrivateNetwork a = true)
  /-- Nothing was asked of a tunnel. -/
  noTunnel : ∀ address port, .tunnelled address port ∉ events
  /-- For a host that is refused there are no sockets. -/
  refused : ∀ host port, target = some (host, port) → relay.refuses host = true →
    ∀ name p address, .opened name p address ∉ events

end Property

section Network

variable {host : Text} {port : ℕ} {all : List IpAddr}

/-- A name was resolved, and sockets were opened to some of its addresses, if these are such as
they should be. -/
def Dialled (host : Text) (port : ℕ) (good : IpAddr → Prop) (events : List Event) : Prop :=
  events = [] ∨ ∃ all rest, events = .resolved host port all :: rest ∧
    (∀ e ∈ rest, ∃ a ∈ all, e = .opened host port a) ∧ (rest = [] ∨ ∀ a ∈ all, good a)

theorem note_adds (event : Event) :
    Adds Net.log (note event) (fun _ more => more = [event]) (fun _ => False) :=
  fun _ => ⟨[event], rfl, rfl⟩

theorem nextAnswer_adds :
    Adds Net.log nextAnswer (fun _ more => more = []) (fun more => more = []) :=
  fun _ => ⟨[], (List.append_nil _).symm, rfl⟩

theorem nextAttempt_adds :
    Adds Net.log nextAttempt (fun _ more => more = []) (fun more => more = []) :=
  fun _ => ⟨[], (List.append_nil _).symm, rfl⟩

theorem lookupHost_adds : Adds Net.log (lookupHost host port)
    (fun all more => more = [.resolved host port all]) (fun more => more = []) := by
  unfold lookupHost
  split
  · refine (note_adds _).bind (fun _ more hmore => ?_) (fun _ h => h.elim)
    subst hmore
    exact .pure rfl
  · refine nextAnswer_adds.quiet_bind (fun answer => ?_) rfl
    cases answer with
    | addresses all =>
      refine (note_adds _).bind (fun _ more hmore => ?_) (fun _ h => h.elim)
      subst hmore
      exact .pure rfl
    | failed e => exact .throw rfl
    | elapsed => exact .throw rfl

/-- Sockets are opened to the addresses given. -/
theorem connectTo_adds (last : IoError) : Adds Net.log (connectTo host port all last)
    (fun _ more => ∀ e ∈ more, ∃ a ∈ all, e = .opened host port a)
    (fun more => ∀ e ∈ more, ∃ a ∈ all, e = .opened host port a) := by
  induction all generalizing last with
  | nil => exact .throw (by simp)
  | cons address rest ih =>
    refine (note_adds _).bind (fun _ more hmore => ?_) (fun _ h => h.elim)
    subst hmore
    have hfirst (more : List Event) (h : ∀ e ∈ more, ∃ a ∈ rest, e = .opened host port a) :
        ∀ e ∈ [.opened host port address] ++ more,
          ∃ a ∈ address :: rest, e = Event.opened host port a := by
      rintro e he
      rcases List.mem_append.mp he with hone | hmore
      · exact ⟨address, by simp, List.mem_singleton.mp hone⟩
      · obtain ⟨a, ha, heq⟩ := h e hmore
        exact ⟨a, List.mem_cons_of_mem _ ha, heq⟩
    refine nextAttempt_adds.quiet_bind (fun attempt => ?_) (hfirst [] (by simp))
    cases attempt with
    | connected s => exact .pure (hfirst [] (by simp))
    | failed e => exact (ih e).mono (fun _ => hfirst) hfirst
    | elapsed => exact .throw (hfirst [] (by simp))

theorem connectUpstream_adds : Adds Net.log (connectUpstream host port)
    (fun _ => Dialled host port fun _ => True) (Dialled host port fun _ => True) := by
  refine lookupHost_adds.bind (fun all more hmore => ?_) (fun _ h => .inl h)
  subst hmore
  exact (connectTo_adds .other).mono (fun _ rest h => .inr ⟨all, rest, rfl, h, .inr (by simp)⟩)
    (fun rest h => .inr ⟨all, rest, rfl, h, .inr (by simp)⟩)

theorem resolveHere_adds {good : IpAddr → Prop} : Adds Net.log (resolveHere host port)
    (fun all more => more = [.resolved host port all]) (Dialled host port good) := by
  refine lookupHost_adds.bind (fun all more hmore => ?_) (fun _ h => .inl h)
  subst hmore
  split
  · exact .throw_bind (.inr ⟨all, [], rfl, by simp, .inl rfl⟩)
  · exact .pure rfl

/-- A host of the local network is dialled where all it resolves to is private. -/
theorem dialLocal_adds : Adds Net.log (dialLocal host port)
    (fun _ => Dialled host port fun a => isPrivateNetwork a = true)
    (Dialled host port fun a => isPrivateNetwork a = true) := by
  refine resolveHere_adds.bind (fun all more hmore => ?_) (fun _ h => h)
  subst hmore
  split
  · exact .throw_bind (.inr ⟨all, [], rfl, by simp, .inl rfl⟩)
  · rename_i hprivate
    have hall : ∀ a ∈ all, isPrivateNetwork a = true := by simpa using hprivate
    exact (connectTo_adds .other).mono (fun _ rest h => .inr ⟨all, rest, rfl, h, .inr hall⟩)
      (fun rest h => .inr ⟨all, rest, rfl, h, .inr hall⟩)

theorem after_adds (x : Talk Unit) (s : Stream) {good : List Event → Prop} (h : good []) :
    Adds Net.log (after x s) (fun _ => good) good := by
  unfold after
  split
  · exact .pure h
  · exact .throw h

/-- With a proxy for its upstream, a relay dials the proxy. -/
theorem dial_adds {relay : Relay} {phost : Text} {pport : ℕ}
    (hproxy : relay.upstream.proxy = some (phost, pport)) : Adds Net.log (relay.dial host port)
    (fun _ => Dialled phost pport fun _ => True) (Dialled phost pport fun _ => True) := by
  have hafter (x : Talk Unit) : Adds Net.log (connectUpstream phost pport >>= after x)
      (fun _ => Dialled phost pport fun _ => True) (Dialled phost pport fun _ => True) := by
    refine connectUpstream_adds.bind (fun s more hmore => after_adds x s ?_) (fun _ h => h)
    rwa [List.append_nil]
  unfold Relay.dial
  cases hup : relay.upstream with
  | http h p auth =>
    rw [hup] at hproxy
    cases hproxy
    exact hafter _
  | socks5 h p auth =>
    rw [hup] at hproxy
    cases hproxy
    exact hafter _
  | direct =>
    rw [hup] at hproxy
    cases hproxy
  | wireGuard =>
    rw [hup] at hproxy
    cases hproxy

end Network

section Sessions

variable {relay : Relay} {α : Type} {good : List Event → Prop}

/-- What a session did on the network. -/
def Session.log (w : Session) : List Event := w.net.log

theorem onClient_adds (x : Talk α) (h : good []) :
    Adds Session.log (onClient x) (fun _ => good) good :=
  .of_same (fun w => by rw [leaves_onClient]; rfl) (fun _ => h) h

theorem onUpstream_adds (x : Talk α) (h : good []) :
    Adds Session.log (onUpstream x) (fun _ => good) good :=
  .of_same (fun w => by rw [leaves_onUpstream]; rfl) (fun _ => h) h

theorem refuse_adds (status : Text) (h : good []) :
    Adds Session.log (refuse status) (fun _ => good) good := by
  refine .of_same (fun w => ?_) (fun _ => h) h
  obtain ⟨s, hs⟩ := leaves_refuse status w
  rw [hs]
  rfl

theorem copyBidirectional_adds (h : good []) :
    Adds Session.log copyBidirectional (fun _ => good) good := by
  refine .of_same (fun w => ?_) (fun _ => h) h
  unfold leaves copyBidirectional
  dsimp only
  split <;> rename_i hr <;> split at hr <;> cases hr <;> rfl

/-- What connecting did, and nothing after a failure. -/
theorem reach_adds {host : Text} {port : ℕ} {isLocal : Bool}
    (hnet : Adds Net.log (relay.connect host port isLocal) (fun _ => good) good) :
    Adds Session.log (relay.reach host port isLocal) (fun _ => good) good := by
  intro w
  have hdone := hnet w.net
  unfold Relay.reach onNet
  cases hr : relay.connect host port isLocal w.net with
  | ok s net =>
    rw [hr] at hdone
    exact hdone
  | error e net =>
    rw [hr] at hdone
    obtain ⟨more, hlog, hmore⟩ := hdone
    obtain ⟨s, hs⟩ := leaves_refuse "502 Bad Gateway".toList { w with net := net }
    exact ⟨more, (congrArg Session.log hs).trans hlog, hmore⟩

/-- A request that is let through is for a host that nothing refuses. -/
theorem verdict_reach {method target head host : Text} {port : ℕ} {isLocal : Bool}
    (h : relay.verdict method target head = .reach host port isLocal) :
    requested method target head = some (host, port) ∧ relay.blocked.blocks host = false ∧
      isLocal = relay.blocked.reachedLocally host ∧
      (!relay.blocked.reachedLocally host && !relay.allowLocal && isLocalTarget host) = false := by
  unfold Relay.verdict at h
  split at h
  · cases h
  · split at h
    · cases h
    · rename_i hrequested
      split at h
      · cases h
      · rename_i hblocks
        split at h
        · cases h
        · rename_i hhere
          cases h
          exact ⟨hrequested, by simpa using hblocks, rfl, by simpa using hhere⟩

/-- Where a request was let through, what connecting did is what the relay may do. -/
theorem contained_of_dialled {proxy : Text × ℕ} (hproxy : relay.upstream.proxy = some proxy)
    {host : Text} {port : ℕ} (events : List Event) (hrefuses : relay.refuses host = false)
    (hdialled : if relay.blocked.reachedLocally host then
      Dialled host port (fun a => isPrivateNetwork a = true) events
      else Dialled proxy.1 proxy.2 (fun _ => True) events) :
    Contained relay (some (host, port)) events := by
  have hshape (name : Text) (p : ℕ) (good : IpAddr → Prop) (h : Dialled name p good events) :
      ∀ e ∈ events, (∃ all, e = .resolved name p all) ∨ ∃ a, e = .opened name p a := by
    rcases h with rfl | ⟨all, rest, rfl, hrest, -⟩
    · simp
    · rintro e he
      rcases List.mem_cons.mp he with rfl | hin
      · exact .inl ⟨all, rfl⟩
      · obtain ⟨a, -, heq⟩ := hrest e hin
        exact .inr ⟨a, heq⟩
  have hopened (name : Text) (p : ℕ) (good : IpAddr → Prop) (h : Dialled name p good events) :
      ∀ n q a, .opened n q a ∈ events → n = name ∧ q = p ∧
        ∃ all, .resolved name p all ∈ events ∧ a ∈ all ∧ ∀ b ∈ all, good b := by
    rintro n q a hin
    rcases h with rfl | ⟨all, rest, rfl, hrest, hgood⟩
    · cases hin
    · rcases List.mem_cons.mp hin with heq | hin
      · cases heq
      · obtain ⟨b, hb, heq⟩ := hrest _ hin
        cases heq
        rcases hgood with rfl | hgood
        · cases hin
        · exact ⟨rfl, rfl, all, by simp, hb, hgood⟩
  have hnames : ∃ name p, ∃ good : IpAddr → Prop, Dialled name p good events := by
    split at hdialled
    · exact ⟨_, _, _, hdialled⟩
    · exact ⟨_, _, _, hdialled⟩
  obtain ⟨name, p, good, hany⟩ := hnames
  refine ⟨fun n q a hin => ?_, fun a q hin => ?_, fun n q heq hrefused => ?_⟩
  · split at hdialled
    · rename_i hhere
      obtain ⟨rfl, rfl, all, hall, ha, hprivate⟩ := hopened _ _ _ hdialled n q a hin
      have hblocks : relay.blocked.blocks n = false := by
        simp only [Relay.refuses, Bool.or_eq_false_iff] at hrefuses
        exact hrefuses.1
      exact ⟨all, hall, ha, .inr ⟨rfl, hhere, hblocks, hprivate⟩⟩
    · obtain ⟨rfl, rfl, all, hall, ha, -⟩ := hopened _ _ _ hdialled n q a hin
      exact ⟨all, hall, ha, .inl hproxy⟩
  · obtain ⟨all, heq⟩ | ⟨b, heq⟩ := hshape name p good hany _ hin
    · cases heq
    · cases heq
  · cases heq
    rw [hrefuses] at hrefused
    cases hrefused

/-- What a relay with a proxy does about a request. -/
theorem serve_adds {proxy : Text × ℕ} (hproxy : relay.upstream.proxy = some proxy)
    (hlocal : relay.allowLocal = false) (head : Text) (leftover : Bytes) :
    Adds Session.log (relay.serve head leftover)
      (fun _ => Contained relay ((parseRequestLine head).bind fun (m, t) => requested m t head))
      (Contained relay ((parseRequestLine head).bind fun (m, t) => requested m t head)) := by
  have hnothing (target : Option (Text × ℕ)) : Contained relay target [] :=
    ⟨by simp, by simp, by simp⟩
  have hclient (x : Talk Unit) :
      Adds Session.log (onClient x) (fun _ more => more = []) (fun more => more = []) :=
    onClient_adds x rfl
  have hupstream (x : Talk Unit) :
      Adds Session.log (onUpstream x) (fun _ more => more = []) (fun more => more = []) :=
    onUpstream_adds x rfl
  have hrefuse (status : Text) :
      Adds Session.log (refuse status) (fun _ more => more = []) (fun more => more = []) :=
    refuse_adds status rfl
  unfold Relay.serve
  cases hline : parseRequestLine head with
  | none => exact .throw (hnothing _)
  | some line =>
    obtain ⟨method, target⟩ := line
    dsimp only [Option.bind_some]
    cases hverdict : relay.verdict method target head with
    | page route =>
      refine (hclient _).quiet_bind (fun _ => ?_) (hnothing _)
      exact (hclient _).quiet_bind (fun _ => .pure (hnothing _)) (hnothing _)
    | malformed => exact .throw (hnothing _)
    | blocked => exact (hrefuse _).quiet_bind (fun _ => .pure (hnothing _)) (hnothing _)
    | notHere => exact (hrefuse _).quiet_bind (fun _ => .pure (hnothing _)) (hnothing _)
    | reach host port isLocal =>
      obtain ⟨hrequested, hblocks, rfl, hhere⟩ := verdict_reach hverdict
      rw [hrequested]
      have hrefuses : relay.refuses host = false := by
        rw [hlocal, Bool.not_false, Bool.and_true] at hhere
        rw [Relay.refuses, hblocks, hhere, Bool.or_false]
      have hconnect : Adds Net.log (relay.connect host port (relay.blocked.reachedLocally host))
          (fun _ => Contained relay (some (host, port))) (Contained relay (some (host, port))) := by
        have hmay (events : List Event) : (if relay.blocked.reachedLocally host then
            Dialled host port (fun a => isPrivateNetwork a = true) events
            else Dialled proxy.1 proxy.2 (fun _ => True) events) →
            Contained relay (some (host, port)) events :=
          contained_of_dialled hproxy events hrefuses
        unfold Relay.connect
        split
        · rename_i hhere
          simp only [hhere, if_true] at hmay
          exact dialLocal_adds.mono (fun _ => hmay) hmay
        · rename_i hhere
          simp only [hhere] at hmay
          exact (dial_adds hproxy).mono (fun _ => hmay) hmay
      refine (reach_adds hconnect).bind (fun _ more hmore => ?_) (fun _ h => h)
      have hkept : Contained relay (some (host, port)) (more ++ []) := by
        rwa [List.append_nil]
      have hgreet : Adds Session.log (greet method head leftover) (fun _ more => more = [])
          (fun more => more = []) := by
        unfold greet
        split
        · exact hclient _
        · refine (hupstream _).quiet_bind (fun _ => ?_) rfl
          split
          · exact hupstream _
          · exact .pure rfl
      exact hgreet.quiet_bind (fun _ => .pure hkept) hkept

theorem proceed_adds {proxy : Text × ℕ} (hproxy : relay.upstream.proxy = some proxy)
    (hlocal : relay.allowLocal = false) (head : Text) (leftover : Bytes) :
    Adds Session.log (relay.proceed head leftover)
      (fun _ => Contained relay ((parseRequestLine head).bind fun (m, t) => requested m t head))
      (Contained relay ((parseRequestLine head).bind fun (m, t) => requested m t head)) := by
  refine (serve_adds hproxy hlocal head leftover).bind (fun going more hmore => ?_) (fun _ h => h)
  rw [← List.append_nil more] at hmore
  cases going with
  | false => exact .pure hmore
  | true => exact copyBidirectional_adds hmore

/-- Every socket of a session is to the proxy, or to the private addresses of a host that a list of
the local network names; a refused host has none. -/
theorem relay_leaks_nothing {relay : Relay} {proxy : Text × ℕ}
    (hproxy : relay.upstream.proxy = some proxy) (hlocal : relay.allowLocal = false)
    (w : Session) : ∃ events, (leaves relay.handleClient w).log = w.log ++ events ∧
      Contained relay (requestedBy w) events := by
  unfold leaves requestedBy
  cases hread : readRequestHead w.client with
  | error e s =>
    rw [handleClient_error hread]
    exact ⟨[], (List.append_nil _).symm, by simp, by simp, by simp⟩
  | ok result s =>
    obtain ⟨head, leftover⟩ := result
    rw [handleClient_ok hread]
    exact (proceed_adds hproxy hlocal head leftover).leaves { w with client := s }

end Sessions

section Sample

/-- A relay over a SOCKS5 proxy, with a vault on the local network. -/
def vaultRelay : Relay where
  upstream := .socks5 "198.51.100.7".toList 1080 none
  blocked := ⟨[], none, ["vault.corp".toList], []⟩
  token := []
  port := none
  allowLocal := false
  body := fun _ => []

/-- A client that asks for the vault, which resolves to an address of the local network and to a
public one. -/
def vaultSession : Session where
  client := ⟨[utf8 "CONNECT vault.corp:443 HTTP/1.1\r\n\r\n"], .silent, [], []⟩
  upstream := ⟨[], .silent, [], []⟩
  net := ⟨[.addresses [.v4 (ofOctets 10 0 0 5), .v4 (ofOctets 93 184 216 34)]], [], [], [], []⟩
  failure := none

/-- Nothing is opened then, neither directly nor to the proxy. -/
theorem relay_leaks_nothing_vault :
    (leaves vaultRelay.handleClient vaultSession).log =
      [.resolved "vault.corp".toList 443
        [.v4 (ofOctets 10 0 0 5), .v4 (ofOctets 93 184 216 34)]] ∧
    ∃ events, (leaves vaultRelay.handleClient vaultSession).log = vaultSession.log ++ events ∧
      Contained vaultRelay (requestedBy vaultSession) events :=
  ⟨by decide, relay_leaks_nothing rfl rfl vaultSession⟩

end Sample

end FuryBrowser.ProfileRelay
