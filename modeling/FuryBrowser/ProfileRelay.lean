import FuryBrowser.ProgramRules
import FuryBrowser.RelayStreams

/-!
# The relay of a profile

Between a profile's browser and the network stands a relay. It reads the head of one request,
answers its own pages, refuses what the profile's lists refuse, opens a connection through the
profile's upstream, or from here for what a list names on the local network, and copies bytes both
ways from then on.
-/

namespace FuryBrowser.ProfileRelay

open AgentDisk TextBytes TextLines IpAddress DomainLists RelayStreams ProgramRules

section Requests

/-- `parse_request_line`. -/
def parseRequestLine (head : Text) : Option (Text × Text) :=
  match (lines head).head?.map words with
  | some (method :: target :: _) => some (method, target)
  | _ => none

/-- `absolute_uri_host`. -/
def absoluteUriHost (target : Text) : Option Text :=
  ((stripStart "http://".toList target).or (stripStart "https://".toList target)).map fun rest =>
    (splitAt '/' rest).headD []

/-- `header_host`. -/
def headerHost (head : Text) : Option Text :=
  ((lines head).find? fun l => "host:".toList.isPrefixOf (lowerText l)).bind fun l =>
    (splitOnce ':' l).map fun (_, value) => trimText value

/-- `split_host_port`. -/
def splitHostPort (s : Text) (defaultPort : ℕ) : Option (Text × ℕ) :=
  match stripStart ['['] s with
  | some rest =>
    (splitOnce ']' rest).map fun (host, tail) =>
      (host, ((stripStart [':'] tail).bind (parseUnsigned 65535)).getD defaultPort)
  | none =>
    match rsplitOnce ':' s with
    | some (host, port) =>
      if host = [] then some (s, defaultPort)
      else (parseUnsigned 65535 port).map fun port => (host, port)
    | none => some (s, defaultPort)

/-- The host and the port a request is for. -/
def requested (method target head : Text) : Option (Text × ℕ) :=
  if method = "CONNECT".toList then splitHostPort target 443
  else ((absoluteUriHost target).or (headerHost head)).bind fun h => splitHostPort h 80

/-- The text from the first slash on. -/
def fromSlash (rest : Text) : Option Text := (splitOnce '/' rest).map fun (_, path) => '/' :: path

/-- The target in origin form, as `strip_proxy_headers` writes it. -/
def originTarget (target : Text) : Text :=
  (((stripStart "http://".toList target).or (stripStart "https://".toList target)).bind
    fromSlash).getD (if "http".toList.isPrefixOf target then "/".toList else target)

/-- The request line it writes. -/
def originLine (line : Text) : Text :=
  let parts := words line
  (parts[0]?).getD "GET".toList ++ ' ' :: originTarget ((parts[1]?).getD "/".toList) ++
    ' ' :: (parts[2]?).getD "HTTP/1.1".toList

/-- The header lines `strip_proxy_headers` leaves out. -/
def isStripped (line : Text) : Bool :=
  "proxy-connection:".toList.isPrefixOf (lowerText line) ||
    "proxy-authorization:".toList.isPrefixOf (lowerText line)

/-- `strip_proxy_headers`. -/
def stripProxyHeaders (head : Text) : Text :=
  match lines head with
  | [] => newline
  | first :: rest =>
    originLine first ++ newline ++ (rest.filter (!isStripped ·)).flatMap (· ++ newline) ++ newline

example : stripProxyHeaders
    "GET http://example.com/a HTTP/1.1\r\nProxy-Connection: close\r\nAccept: *\r\n\r\n".toList =
    "GET /a HTTP/1.1\r\nAccept: *\r\n\r\n\r\n".toList := by
  decide

end Requests

section Settings

/-- `Upstream`. -/
inductive Upstream where
  | http (host : Text) (port : ℕ) (auth : Option Credentials)
  /-- A SOCKS5 proxy, which resolves names itself. -/
  | socks5 (host : Text) (port : ℕ) (auth : Option Credentials)
  | direct
  | wireGuard
  deriving DecidableEq, Repr

/-- `Route`. -/
inductive Route where
  | start
  | probe
  | probeJs
  | probeSw
  | missing
  deriving DecidableEq, Repr

/-- `Relay`. -/
structure Relay where
  upstream : Upstream
  blocked : Blocklist
  /-- The secret in the path of the relay's own pages. -/
  token : Text
  /-- The port the relay listens on. -/
  port : Option ℕ
  /-- A check may reach a checker on the local network. -/
  allowLocal : Bool
  body : Route → Text

/-- `START_HOST`. -/
def startHost : Text := "fury.invalid".toList

/-- `is_ours`. -/
def isOurs (host : Text) (port : Option ℕ) : Bool :=
  let (name, p) := match rsplitOnce ':' host with
    | some (name, p) => (name, parseUnsigned 65535 p)
    | none => (host, none)
  name = startHost ||
    ((name = "127.0.0.1".toList || name = "localhost".toList) && p.isSome && p = port)

/-- `route`. -/
def Relay.route (relay : Relay) (target head : Text) : Option Route :=
  let host := ((absoluteUriHost target).or (headerHost head)).getD []
  if isOurs host relay.port then
    let path := ((stripStart "http://".toList target).bind fromSlash).getD target
    let path := (splitAt '?' path).headD path
    ((stripStart ['/'] path).bind (stripStart relay.token)).map fun rest =>
      if rest = "/".toList ∨ rest = [] then .start
      else if rest = "/probe/".toList ∨ rest = "/probe".toList then .probe
      else if rest = "/probe/probe.js".toList then .probeJs
      else if rest = "/probe/sw-probe.js".toList then .probeSw
      else .missing
  else none

/-- The status and the content type a page is answered with. -/
def Route.answer : Route → Text × Text
  | .start | .probe => ("200 OK".toList, "text/html; charset=utf-8".toList)
  | .probeJs | .probeSw => ("200 OK".toList, "application/javascript; charset=utf-8".toList)
  | .missing => ("404 Not Found".toList, "text/plain; charset=utf-8".toList)

/-- The head of a page. -/
def pageHead (route : Route) (body : Text) : Text :=
  "HTTP/1.1 ".toList ++ route.answer.1 ++ "\r\nContent-Type: ".toList ++ route.answer.2 ++
    "\r\nContent-Length: ".toList ++ Nat.toDigits 10 (bytesOf body).length ++
    "\r\nCache-Control: no-store\r\nConnection: close\r\n\r\n".toList

/-- `is_local_ip`. -/
def isLocalIp : IpAddr → Bool
  | .v4 a => isLoopback a || isPrivate a || isLinkLocal a || a.toNat = 0 || isShared a
  | .v6 a =>
    a.toNat = 1 || a.toNat = 0 || isUniqueLocal a || segment a 0 &&& 0xFFC0 = 0xFE80 ||
      ((toIpv4Mapped a).map fun four => isLoopback four || isPrivate four || isLinkLocal four ||
        four.toNat = 0 || isShared four).getD false

/-- `is_local_target`. -/
def isLocalTarget (host : Text) : Bool :=
  let h := trimEndMatches '.' (lowerText (trimEndMatches ']' (trimStartMatches '[' host)))
  h = "localhost".toList || ".localhost".toList.isSuffixOf h || ".local".toList.isSuffixOf h ||
    ((parseIp h).map isLocalIp).getD false

/-- What becomes of a request. -/
inductive Verdict where
  | page (route : Route)
  | malformed
  /-- The lists refuse the host. -/
  | blocked
  /-- It is on this machine or its network, and no list names it. -/
  | notHere
  /-- It is reached, from this machine where a list of the local network names it. -/
  | reach (host : Text) (port : ℕ) (isLocal : Bool)
  deriving DecidableEq, Repr

/-- What `handle_client` decides before it opens anything. -/
def Relay.verdict (relay : Relay) (method target head : Text) : Verdict :=
  match if method = "CONNECT".toList then none else relay.route target head with
  | some route => .page route
  | none =>
    match requested method target head with
    | none => .malformed
    | some (host, port) =>
      if relay.blocked.blocks host then .blocked
      else if !relay.blocked.reachedLocally host && !relay.allowLocal && isLocalTarget host then
        .notHere
      else .reach host port (relay.blocked.reachedLocally host)

end Settings

section Network

/-- What the resolver answers. -/
inductive Resolution where
  | addresses (all : List IpAddr)
  | failed (error : IoError)
  | elapsed
  deriving DecidableEq, Repr

/-- What comes of an attempt to connect to an address. -/
inductive Attempt where
  /-- A connection, to which nothing was written yet. -/
  | connected (stream : Stream)
  | failed (error : IoError)
  | elapsed
  deriving DecidableEq, Repr

/-- What the relay did on the network. -/
inductive Event where
  /-- A name resolved to these addresses. -/
  | resolved (host : Text) (port : ℕ) (addresses : List IpAddr)
  /-- A socket was opened to an address, for the name it had been resolved from. -/
  | opened (host : Text) (port : ℕ) (address : IpAddr)
  /-- A connection was asked of the tunnel. -/
  | tunnelled (address : IpAddr) (port : ℕ)
  deriving DecidableEq, Repr

/-- The network: how it answers from now on, and what was done on it. -/
structure Net where
  /-- The resolver's next answers. -/
  answers : List Resolution
  /-- What comes of the next attempts to connect. -/
  attempts : List Attempt
  /-- What the tunnel's resolver answers next. -/
  tunnelAnswers : List (Except Text IpAddr)
  /-- What the tunnel makes of the next connections. -/
  tunnelAttempts : List (Except Text Stream)
  log : List Event

/-- What is done on the network. -/
abbrev NetOp := EStateM Stop Net

/-- What is noted. -/
def note (event : Event) : NetOp Unit := fun net => .ok () { net with log := net.log ++ [event] }

/-- The resolver's next answer. -/
def nextAnswer : NetOp Resolution := fun net =>
  .ok (net.answers.headD .elapsed) { net with answers := net.answers.tail }

/-- What comes of the next attempt. -/
def nextAttempt : NetOp Attempt := fun net =>
  .ok (net.attempts.headD .elapsed) { net with attempts := net.attempts.tail }

/-- The tunnel's next answer. -/
def nextTunnelAnswer : NetOp (Except Text IpAddr) := fun net =>
  .ok (net.tunnelAnswers.headD (.error [])) { net with tunnelAnswers := net.tunnelAnswers.tail }

/-- The tunnel's next connection. -/
def nextTunnelAttempt : NetOp (Except Text Stream) := fun net =>
  .ok (net.tunnelAttempts.headD (.error [])) { net with tunnelAttempts := net.tunnelAttempts.tail }

/-- The network cannot be reached. -/
def unreachable (error : IoError) : Stop := .failed (.upstreamUnreachable error)

/-- `lookup_host`: an address stands for itself. -/
def lookupHost (host : Text) (port : ℕ) : NetOp (List IpAddr) :=
  match parseIp host with
  | some ip => do
    note (.resolved host port [ip])
    pure [ip]
  | none => do
    match ← nextAnswer with
    | .addresses all =>
      note (.resolved host port all)
      pure all
    | .failed e => throw (unreachable e)
    | .elapsed => throw (unreachable .timedOut)

/-- `TcpStream::connect`: one address after the other, and the last error if none answers. -/
def connectTo (host : Text) (port : ℕ) : List IpAddr → IoError → NetOp Stream
  | [], last => throw (unreachable last)
  | address :: rest, _ => do
    note (.opened host port address)
    match ← nextAttempt with
    | .connected s => pure { s with written := [] }
    | .failed e => connectTo host port rest e
    | .elapsed => throw (unreachable .timedOut)

/-- `connect_upstream`. -/
def connectUpstream (host : Text) (port : ℕ) : NetOp Stream := do
  let addresses ← lookupHost host port
  connectTo host port addresses .other

/-- `resolve_here`. -/
def resolveHere (host : Text) (port : ℕ) : NetOp (List IpAddr) := do
  let addresses ← lookupHost host port
  if addresses = [] then throw (unreachable .notFound)
  pure addresses

/-- `connect_resolved`. -/
def connectResolved (host : Text) (port : ℕ) (addresses : List IpAddr) : NetOp Stream :=
  connectTo host port addresses .other

/-- `dial_local`. -/
def dialLocal (host : Text) (port : ℕ) : NetOp Stream := do
  let addresses ← resolveHere host port
  if !addresses.all isPrivateNetwork then
    throw (.failed (.connectRejected host (.notPrivate addresses)))
  connectResolved host port addresses

/-- The connection a handshake leaves, from which on everything written counts. -/
def after (x : Talk Unit) (s : Stream) : NetOp Stream :=
  match x s with
  | .ok _ t => pure { t with written := [] }
  | .error e _ => throw e

/-- `dial`. -/
def Relay.dial (relay : Relay) (host : Text) (port : ℕ) : NetOp Stream :=
  match relay.upstream with
  | .http phost pport auth => do
    let s ← connectUpstream phost pport
    after (handshake .http (httpConnect host port auth)) s
  | .socks5 phost pport auth => do
    let s ← connectUpstream phost pport
    after (handshake .socks5 (socks5Connect host port auth)) s
  | .direct => do
    let addresses ← resolveHere host port
    match if relay.allowLocal then none else addresses.find? isLocalIp with
    | some a => throw (.failed (.connectRejected host (.resolvesHere a)))
    | none => connectResolved host port addresses
  | .wireGuard => do
    match ← nextTunnelAnswer with
    | .error why => throw (.failed (.connectRejected host (.tunnel why)))
    | .ok address =>
      note (.tunnelled address port)
      match ← nextTunnelAttempt with
      | .error why => throw (.failed (.connectRejected (authority host port) (.tunnel why)))
      | .ok s => pure { s with written := [] }

/-- The connection a request is given. -/
def Relay.connect (relay : Relay) (host : Text) (port : ℕ) (isLocal : Bool) : NetOp Stream :=
  if isLocal then dialLocal host port else relay.dial host port

end Network

section Sessions

/-- A client's session. -/
structure Session where
  /-- The client's connection. -/
  client : Stream
  /-- The one to the far side, once it is there. -/
  upstream : Stream
  net : Net
  /-- Where the copying breaks off, if it does: how many bytes went each way, and the error. -/
  failure : Option (ℕ × ℕ × IoError)

/-- What is done in a session. -/
abbrev SessionOp := EStateM Stop Session

/-- What is done over the client's connection. -/
def onClient {α : Type} (x : Talk α) : SessionOp α := fun w =>
  match x w.client with
  | .ok a s => .ok a { w with client := s }
  | .error e s => .error e { w with client := s }

/-- What is done over the other one. -/
def onUpstream {α : Type} (x : Talk α) : SessionOp α := fun w =>
  match x w.upstream with
  | .ok a s => .ok a { w with upstream := s }
  | .error e s => .error e { w with upstream := s }

/-- What is done on the network. -/
def onNet {α : Type} (x : NetOp α) : SessionOp α := fun w =>
  match x w.net with
  | .ok a net => .ok a { w with net := net }
  | .error e net => .error e { w with net := net }

/-- A refusal: what it says is written if it can be. -/
def refuse (status : Text) : SessionOp Unit := fun w =>
  .ok () (leaves (onClient (writeAll
    (bytesOf ("HTTP/1.1 ".toList ++ status ++ "\r\nConnection: close\r\n\r\n".toList)))) w)

/-- A connection for a request, or a refusal: there is no other way out. -/
def Relay.reach (relay : Relay) (host : Text) (port : ℕ) (isLocal : Bool) : SessionOp Unit :=
  fun w =>
    match onNet (relay.connect host port isLocal) w with
    | .ok s w => .ok () { w with upstream := s }
    | .error e w => (do refuse "502 Bad Gateway".toList; throw e : SessionOp Unit) w

/-- What the client of a tunnel is told. -/
def established : Bytes := bytesOf "HTTP/1.1 200 Connection Established\r\n\r\n".toList

/-- What is said first: to the client of a tunnel that it is there, and to the far side of a plain
request the request, and what came with its head. -/
def greet (method head : Text) (leftover : Bytes) : SessionOp Unit :=
  if method = "CONNECT".toList then onClient (writeAll established)
  else do
    onUpstream (writeAll (bytesOf (stripProxyHeaders head)))
    if leftover ≠ [] then onUpstream (writeAll leftover)

/-- What `handle_client` does up to the copying, and whether that follows. -/
def Relay.serve (relay : Relay) (head : Text) (leftover : Bytes) : SessionOp Bool :=
  match parseRequestLine head with
  | none => throw (.failed .badRequest)
  | some (method, target) =>
    match relay.verdict method target head with
    | .page route => do
      onClient (writeAll (bytesOf (pageHead route (relay.body route))))
      onClient (writeAll (bytesOf (relay.body route)))
      pure false
    | .malformed => throw (.failed .badRequest)
    | .blocked => do
      refuse "403 Forbidden".toList
      pure false
    | .notHere => do
      refuse "502 Bad Gateway".toList
      pure false
    | .reach host port isLocal => do
      relay.reach host port isLocal
      greet method head leftover
      pure true

/-- What is left of a connection when so many bytes were taken from it, and more were written. -/
def Stream.carried (s : Stream) (taken : ℕ) (more : Bytes) : Stream :=
  { s with
    arrivals := [s.arrivals.flatten.drop taken]
    written := s.written ++ more }

/-- `copy_bidirectional`: all that arrives, or so much of it, and how it ends. -/
def copyBidirectional : SessionOp Unit := fun w =>
  let sent := w.client.arrivals.flatten
  let answered := w.upstream.arrivals.flatten
  let (up, down) := match w.failure with
    | some (up, down, _) => (up, down)
    | none => (sent.length, answered.length)
  let done := { w with
    client := Stream.carried w.client up (answered.take down)
    upstream := Stream.carried w.upstream down (sent.take up) }
  match w.failure, w.client.ending, w.upstream.ending with
  | some (_, _, e), _, _ => .error (.failed (.io e)) done
  | none, .failed e, _ => .error (.failed (.io e)) done
  | none, _, .failed e => .error (.failed (.io e)) done
  | none, .closed, .closed => .ok () done
  | none, _, _ => .error .waiting done

/-- What `handle_client` does once it has the head. -/
def Relay.proceed (relay : Relay) (head : Text) (leftover : Bytes) : SessionOp Unit := do
  if ← relay.serve head leftover then copyBidirectional

/-- `handle_client`. -/
def Relay.handleClient (relay : Relay) : SessionOp Unit := do
  let (head, leftover) ← onClient readRequestHead
  relay.proceed head leftover

variable {relay : Relay} {w : Session} {s : Stream}

theorem leaves_onClient {α : Type} (x : Talk α) (w : Session) :
    leaves (onClient x) w = { w with client := leaves x w.client } := by
  unfold leaves onClient
  cases x w.client <;> rfl

theorem leaves_onUpstream {α : Type} (x : Talk α) (w : Session) :
    leaves (onUpstream x) w = { w with upstream := leaves x w.upstream } := by
  unfold leaves onUpstream
  cases x w.upstream <;> rfl

/-- A refusal is said to the client, and to no one else. -/
theorem leaves_refuse (status : Text) (w : Session) :
    ∃ s, leaves (refuse status) w = { w with client := s } :=
  ⟨_, leaves_onClient _ w⟩

theorem handleClient_ok {head : Text} {leftover : Bytes}
    (h : readRequestHead w.client = .ok (head, leftover) s) :
    relay.handleClient w = relay.proceed head leftover { w with client := s } := by
  change EStateM.bind (onClient readRequestHead) _ w = _
  simp only [EStateM.bind, onClient, h]

theorem handleClient_error {e : Stop} (h : readRequestHead w.client = .error e s) :
    relay.handleClient w = .error e { w with client := s } := by
  change EStateM.bind (onClient readRequestHead) _ w = _
  simp only [EStateM.bind, onClient, h]

end Sessions

end FuryBrowser.ProfileRelay
