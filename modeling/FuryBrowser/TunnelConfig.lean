import FuryBrowser.DomainLists

/-!
# WireGuard configurations

A configuration is read the way `wg-quick` reads it, and refused if its keys are no keys or if
anything would go past the tunnel. What was read has keys of 32 bytes, an endpoint and a default
route. A tunnel is started only if there is also an address and a resolver.
-/

namespace FuryBrowser.TunnelConfig

open AgentDisk TextBytes TextLines IpAddress

section Keys

/-- The value of a base64 character. -/
def sextet (c : Char) : Option ℕ :=
  if 'A' ≤ c ∧ c ≤ 'Z' then some (c.toNat - 65)
  else if 'a' ≤ c ∧ c ≤ 'z' then some (c.toNat - 71)
  else if '0' ≤ c ∧ c ≤ '9' then some (c.toNat + 4)
  else if c = '+' then some 62
  else if c = '/' then some 63
  else none

/-- `STANDARD.decode`: padding is required, and the bits it leaves over are zero. -/
def decode64 : Text → Option Bytes
  | [] => some []
  | [a, b, '=', '='] => do
    let n := (← sextet a) * 64 + (← sextet b)
    if n % 16 = 0 then some [.ofNat (n / 16)] else none
  | [a, b, c, '='] => do
    let n := ((← sextet a) * 64 + (← sextet b)) * 64 + (← sextet c)
    if n % 4 = 0 then some [.ofNat (n / 1024), .ofNat (n / 4 % 256)] else none
  | a :: b :: c :: d :: rest => do
    let n := (((← sextet a) * 64 + (← sextet b)) * 64 + (← sextet c)) * 64 + (← sextet d)
    let bytes ← decode64 rest
    some (.ofNat (n / 65536) :: .ofNat (n / 256 % 256) :: .ofNat (n % 256) :: bytes)
  | _ => none

/-- Why a key is not one. -/
inductive KeyError
  | notBase64
  /-- "decodes to … bytes, expected 32" -/
  | length (n : ℕ)
  deriving DecidableEq, Repr

/-- `key32`. -/
def key32 (value : Text) : Except KeyError Bytes :=
  match decode64 value with
  | none => .error .notBase64
  | some raw => if raw.length = 32 then .ok raw else .error (.length raw.length)

/-- `check_key`. -/
def checkKey (value : Text) : Except KeyError Unit := (key32 value).map fun _ => ()

end Keys

section Parsing

/-- `Config`. -/
structure Config where
  /-- The private key, base64. -/
  privateKey : Text
  /-- Addresses the interface takes inside the tunnel. -/
  addresses : List Text
  /-- Resolvers to use inside it. -/
  dns : List Text
  /-- The peer's key, base64. -/
  peerPublicKey : Text
  /-- A key shared with it, if there is one. -/
  presharedKey : Option Text
  endpoint : Text
  /-- What goes through the tunnel. -/
  allowedIps : List Text
  /-- How often to be heard of. -/
  keepalive : Option ℕ
  deriving DecidableEq, Repr

/-- Why a configuration is refused. -/
inductive ParseError
  | unknownSection (name : Text)
  /-- "… is not `Key = Value`" -/
  | notPair (line : Text)
  /-- "more than one [Peer] — this supports a single peer" -/
  | morePeers
  /-- "… appears before any section" -/
  | beforeSection (line : Text)
  /-- "[Interface] has no PrivateKey" -/
  | noPrivateKey
  /-- "[Peer] has no PublicKey" -/
  | noPublicKey
  /-- "[Peer] has no Endpoint" -/
  | noEndpoint
  /-- A key that is not one, and which it is. -/
  | key (what : Text) (error : KeyError)
  /-- "Endpoint … is not host:port" -/
  | notHostPort (endpoint : Text)
  /-- "AllowedIPs is …, which is a split tunnel" -/
  | splitTunnel (allowed : List Text)
  /-- "PersistentKeepalive is not a number" -/
  | keepalive
  deriving DecidableEq, Repr

/-- The sections of a configuration. -/
inductive Section
  | none
  /-- `[Interface]` -/
  | interface
  /-- `[Peer]` -/
  | peer
  deriving DecidableEq, Repr

/-- What has been read: the section, and the entries of the two. -/
structure Entries where
  /-- The section that the next line is in. -/
  current : Section
  /-- Of `[Interface]`. -/
  iface : List (Text × Text)
  /-- Of `[Peer]`. -/
  peer : List (Text × Text)
  deriving DecidableEq, Repr

/-- The name between brackets. -/
def bracketed (line : Text) : Option Text :=
  match line with
  | '[' :: rest => if rest.getLast? = some ']' then some rest.dropLast else none
  | _ => none

/-- One line, without its comment. -/
def readLine (read : Entries) (raw : Text) : Except ParseError Entries :=
  let line := trimText (raw.takeWhile (· ≠ '#'))
  if line = [] then .ok read
  else match bracketed line with
  | some name =>
    let name := lowerText (trimText name)
    if name = "interface".toList then .ok { read with current := .interface }
    else if name = "peer".toList then .ok { read with current := .peer }
    else .error (.unknownSection name)
  | none =>
    match splitOnce '=' line with
    | none => .error (.notPair line)
    | some (k, v) =>
      let entry := (lowerText (trimText k), trimText v)
      match read.current with
      | .interface => .ok { read with iface := read.iface ++ [entry] }
      | .peer =>
        -- a second peer is refused rather than ignored
        if read.peer = [] ∨ entry.1 ≠ "publickey".toList then
          .ok { read with peer := read.peer ++ [entry] }
        else .error .morePeers
      | .none => .error (.beforeSection line)

/-- The first entry with a key. -/
def entry (list : List (Text × Text)) (key : String) : Option Text :=
  (list.find? fun e => e.1 = key.toList).map (·.2)

/-- A list with commas, without what is empty. -/
def listed : Option Text → List Text
  | some text => ((splitAt ',' text).map trimText).filter (· ≠ [])
  | none => []

/-- `carries_default_route`. -/
def carriesDefaultRoute (entries : List Text) : Bool :=
  entries.contains "0.0.0.0/0".toList ||
    (entries.contains "0.0.0.0/1".toList && entries.contains "128.0.0.0/1".toList)

/-- A host that is not empty, and a port that is not zero. -/
def isHostPort (endpoint : Text) : Bool :=
  match rsplitOnce ':' endpoint with
  | some (host, port) => host ≠ [] && (parseUnsigned 65535 port).any (· ≠ 0)
  | none => false

/-- A key that has to be one. -/
def requireKey (what : String) (value : Text) : Except ParseError Unit :=
  (checkKey value).mapError (.key what.toList)

/-- So has a shared one, if there is one. -/
def requirePreshared : Option Text → Except ParseError Unit
  | some psk => requireKey "PresharedKey" psk
  | none => .ok ()

/-- A condition, and what it is refused for. -/
def require (holds : Bool) (error : ParseError) : Except ParseError Unit :=
  if holds then .ok () else .error error

/-- What has to be there. -/
def demand {α : Type} (found : Option α) (error : ParseError) : Except ParseError α :=
  match found with
  | some a => .ok a
  | none => .error error

/-- A number of seconds, if there is one. -/
def readKeepalive : Option Text → Except ParseError (Option ℕ)
  | some v => (demand (parseUnsigned 65535 v) .keepalive).map some
  | none => .ok none

/-- `Config::parse`, after the lines. -/
def ofEntries (read : Entries) : Except ParseError Config := do
  let privateKey ← demand (entry read.iface "privatekey") .noPrivateKey
  let peerPublicKey ← demand (entry read.peer "publickey") .noPublicKey
  let endpoint ← demand (entry read.peer "endpoint") .noEndpoint
  requireKey "PrivateKey" privateKey
  requireKey "PublicKey" peerPublicKey
  requirePreshared (entry read.peer "presharedkey")
  require (isHostPort endpoint) (.notHostPort endpoint)
  let allowedIps := listed (entry read.peer "allowedips")
  require (carriesDefaultRoute allowedIps) (.splitTunnel allowedIps)
  let keepalive ← readKeepalive (entry read.peer "persistentkeepalive")
  pure ⟨privateKey, listed (entry read.iface "address"), listed (entry read.iface "dns"),
    peerPublicKey, entry read.peer "presharedkey", endpoint, allowedIps, keepalive⟩

/-- `Config::parse`. -/
def parse (text : Text) : Except ParseError Config := do
  let read ← (lines text).foldlM readLine ⟨.none, [], []⟩
  ofEntries read

end Parsing

section Starting

/-- `parse_cidr`. -/
def parseCidr (text : Text) : Option (IpAddr × ℕ) := do
  let (addr, bits) ← match splitOnce '/' text with
    | some (a, b) => (parseUnsigned 255 b).map fun b => (a, b)
    | none => some (text, 32)
  let addr ← parseIp (trimText addr)
  let max := match addr with
    | .v4 _ => 32
    | .v6 _ => 128
  if max < bits then none else some (addr, bits)

/-- What a stack is started with: the keys, the address inside the tunnel and the resolvers. -/
structure Started where
  key : Bytes
  addr : IpAddr
  bits : ℕ
  servers : List IpAddr
  deriving DecidableEq, Repr

/-- The private key, if it is one. -/
def Config.key (config : Config) : Option Bytes := (key32 config.privateKey).toOption

/-- The address inside the tunnel: the first one. -/
def Config.inside (config : Config) : Option IpAddr :=
  (config.addresses.head?.bind parseCidr).map (·.1)

/-- The shared key, if there is one, has to be a key. -/
def Config.presharedIsKey (config : Config) : Bool :=
  config.presharedKey.all fun psk => (key32 psk).toOption.isSome

/-- `Tunnel::connect`. Whether the endpoint can be resolved and a socket be bound and pointed at it
depends on the machine. -/
def connect (config : Config) (connected : Bool) : Option Bytes := do
  let key ← config.key
  let _ ← (key32 config.peerPublicKey).toOption
  if config.presharedIsKey && connected then some key else none

/-- `Stack::start`. -/
def start (config : Config) (connected : Bool) : Option Started := do
  let key ← connect config connected
  let cidr ← config.addresses.head?
  let (addr, bits) ← parseCidr cidr
  let servers := config.dns.filterMap parseIp
  if servers = [] then none else some ⟨key, addr, bits, servers⟩

end Starting

/-- What every configuration that was read has. -/
structure Checked (config : Config) : Prop where
  key : ∃ key, config.key = some key
  peer : ∃ key, key32 config.peerPublicKey = .ok key
  /-- A shared key that is one, if there is one. -/
  preshared : ∀ psk ∈ config.presharedKey, ∃ key, key32 psk = .ok key
  endpoint : isHostPort config.endpoint = true
  /-- Nothing goes past the tunnel. -/
  route : carriesDefaultRoute config.allowedIps = true

section Checks

variable {config : Config} {text value : Text} {read : Entries}

theorem bind_ok {α β : Type} {x : Except ParseError α} {f : α → Except ParseError β} {b : β}
    (h : x >>= f = .ok b) : ∃ a, x = .ok a ∧ f a = .ok b := by
  cases x with
  | error e => cases h
  | ok a => exact ⟨a, rfl, h⟩

/-- A tunnel has the key of its configuration, and the address. -/
theorem start_eq {connected : Bool} {started : Started}
    (h : start config connected = some started) :
    config.key = some started.key ∧ config.inside = some started.addr := by
  obtain ⟨key, hconnect, h⟩ := Option.bind_eq_some_iff.mp h
  obtain ⟨cidr, hcidr, h⟩ := Option.bind_eq_some_iff.mp h
  obtain ⟨⟨addr, bits⟩, haddr, h⟩ := Option.bind_eq_some_iff.mp h
  obtain ⟨key', hkey, hconnect⟩ := Option.bind_eq_some_iff.mp hconnect
  obtain ⟨-, -, hconnect⟩ := Option.bind_eq_some_iff.mp hconnect
  dsimp only at h
  split at h
  · cases h
  · cases h
    split at hconnect
    · cases hconnect
      exact ⟨hkey, by rw [Config.inside, hcidr, Option.bind_some, haddr]; rfl⟩
    · cases hconnect

end Checks

end FuryBrowser.TunnelConfig
