import FuryBrowser.Base64Url
import FuryBrowser.LocalStore
import FuryBrowser.ProxyShapes
import FuryBrowser.RelayStreams
import FuryBrowser.TunnelConfig

/-!
# Proxies as URLs

A proxy is handed to the agent as a URL, which three places put together and two take apart. The
login and the password stand in it as they are; the configuration of a tunnel stands where a
password goes, in base64url.
-/

namespace FuryBrowser.ProxyUrls

open AgentDisk TextBytes TextLines TextCuts TextFields ProgramRules RelayStreams ProxyList

section Writing

/-- What of a proxy a URL has to say. -/
structure Fields where
  kind : Text
  host : Text
  /-- The port, as a server may give it. -/
  port : ℤ
  username : Option Text
  /-- The password, or the configuration of a tunnel. -/
  password : Option Text
  deriving DecidableEq, Repr

/-- `wireguard`. -/
def wireguard : Text := "wireguard".toList

/-- A number in decimal. -/
def showInt : ℤ → Text
  | .ofNat n => Nat.toDigits 10 n
  | .negSucc n => '-' :: Nat.toDigits 10 (n + 1)

/-- `{host}:{port}`. -/
def hostPort (host port : Text) : Text := host ++ ':' :: port

/-- `{user}:{pass}@{host}:{port}`, or the second half of it. -/
def withLogin (username password : Option Text) (endpoint : Text) : Text :=
  match username, password with
  | some user, some pass => (user ++ ':' :: pass) ++ '@' :: endpoint
  | _, _ => endpoint

/-- `{kind}://{user}:{pass}@{host}:{port}`. -/
def format (kind host port : Text) (username password : Option Text) : Text :=
  kind ++ (schemeMark ++ withLogin username password (hostPort host port))

/-- `wireguard://wg:{blob}@{host}:{port}`. -/
def formatTunnel (conf host port : Text) : Text :=
  wireguard ++ (schemeMark ++
    ("wg:".toList ++ Base64Url.encode (bytesOf conf) ++ '@' :: hostPort host port))

/-- `wireguard::url`. -/
def wireguardUrl (conf host : Text) (port : ℕ) : Text :=
  formatTunnel conf host (Nat.toDigits 10 port)

/-- `Proxy::url`. -/
def storedUrl (p : LocalStore.Proxy) : Text :=
  if p.kind.toList = wireguard then
    wireguardUrl ((p.password.map String.toList).getD []) p.host.toList p.port
  else
    format p.kind.toList p.host.toList (Nat.toDigits 10 p.port) (p.username.map String.toList)
      (p.password.map String.toList)

/-- `ParsedProxy::url`. -/
def parsedUrl (p : ParsedProxy) : Text :=
  format p.scheme p.host (Nat.toDigits 10 p.port) p.username p.password

/-- `proxy_url`. -/
def proxyUrl (kind host : Text) (port : ℤ) (user pass : Option Text) : Text :=
  if kind = wireguard then formatTunnel (pass.getD []) host (showInt port)
  else format kind host (showInt port) user pass

/-- A URL that is written for a proxy. -/
inductive Writes : Fields → Text → Prop
  /-- For a line of a pasted list. -/
  | line {line : Text} {p : ParsedProxy} (h : parseLine line = .ok p) :
    Writes ⟨p.scheme, p.host, p.port, p.username, p.password⟩ (parsedUrl p)
  /-- For a proxy of the store. -/
  | stored (p : LocalStore.Proxy) : Writes ⟨p.kind.toList, p.host.toList, p.port,
    p.username.map String.toList, p.password.map String.toList⟩ (storedUrl p)
  | team (kind host : Text) (port : ℤ) (user pass : Option Text) :
    Writes ⟨kind, host, port, user, pass⟩ (proxyUrl kind host port user pass)

end Writing

section Reading

/-- `Upstream`. -/
inductive Upstream where
  | http (host : Text) (port : ℕ) (auth : Option Credentials)
  | socks5 (host : Text) (port : ℕ) (auth : Option Credentials)
  | direct
  | wireGuard (config : TunnelConfig.Config)

/-- Why a URL is refused. -/
inductive UrlError where
  | noScheme
  /-- No colon before the at sign. -/
  | badCredentials
  | noHostPort
  | badPort
  /-- A tunnel without its configuration. -/
  | noConfig
  /-- A configuration that is not base64url. -/
  | notBase64
  /-- A configuration that is not text. -/
  | notText
  /-- A configuration that is refused. -/
  | config (error : TunnelConfig.ParseError)
  | unsupported (scheme : Text)

/-- `from_url_secret`. -/
def fromUrlSecret (secret : Text) : Except UrlError TunnelConfig.Config :=
  match Base64Url.decode (trimEndMatches '=' secret) with
  | none => .error .notBase64
  | some raw =>
    match fromUtf8 raw with
    | none => .error .notText
    | some text => (TunnelConfig.parse text.toList).mapError .config

/-- What stands before the last at sign, and what comes after it. -/
def splitLogin (rest : Text) : Except UrlError (Option Credentials × Text) :=
  match rsplitOnce '@' rest with
  | some (auth, endpoint) =>
    match splitOnce ':' auth with
    | some (user, pass) => .ok (some ⟨user, pass⟩, endpoint)
    | none => .error .badCredentials
  | none => .ok (none, rest)

/-- The host and the port. -/
def splitEndpoint (endpoint : Text) : Except UrlError (Text × ℕ) :=
  match rsplitOnce ':' endpoint with
  | some (host, port) =>
    match parseUnsigned 65535 port with
    | some port => .ok (host, port)
    | none => .error .badPort
  | none => .error .noHostPort

/-- The proxy of a kind. -/
def upstreamOf (scheme host : Text) (port : ℕ) (auth : Option Credentials) :
    Except UrlError Upstream :=
  if scheme = "http".toList ∨ scheme = "https".toList then .ok (.http host port auth)
  else if scheme = "socks5".toList ∨ scheme = "socks5h".toList then .ok (.socks5 host port auth)
  else if scheme = wireguard then
    match auth with
    | none => .error .noConfig
    | some auth => (fromUrlSecret auth.password).map .wireGuard
  else .error (.unsupported scheme)

/-- `parse_upstream`. -/
def parseUpstream (url : Text) : Except UrlError Upstream :=
  if url = "direct".toList ∨ url = "direct://".toList then .ok .direct
  else
    match splitOnceText schemeMark url with
    | none => .error .noScheme
    | some (scheme, rest) => do
      let (auth, endpoint) ← splitLogin rest
      let (host, port) ← splitEndpoint endpoint
      upstreamOf scheme host port auth

end Reading

section Survival

/-- The kinds of proxy that have a host of their own. -/
def hostedKinds : List Text :=
  ["http".toList, "https".toList, "socks5".toList, "socks5h".toList]

/-- The proxy dials what the fields say. -/
def Upstream.Dials : Upstream → Fields → Prop
  | .http host port auth, f => (f.kind = "http".toList ∨ f.kind = "https".toList) ∧
    host = f.host ∧ (port : ℤ) = f.port ∧ auth.map Credentials.username = f.username ∧
    auth.map Credentials.password = f.password
  | .socks5 host port auth, f => (f.kind = "socks5".toList ∨ f.kind = "socks5h".toList) ∧
    host = f.host ∧ (port : ℤ) = f.port ∧ auth.map Credentials.username = f.username ∧
    auth.map Credentials.password = f.password
  | .wireGuard config, f =>
    f.kind = wireguard ∧ TunnelConfig.parse (f.password.getD []) = .ok config
  | .direct, _ => False

/-- The line of a pasted list names what the fields say. -/
def Names (p : ParsedProxy) (f : Fields) : Prop :=
  normaliseScheme f.kind = .ok p.scheme ∧ p.host = f.host ∧ (p.port : ℤ) = f.port ∧
    p.username = f.username ∧ p.password = f.password

/-- What is written for a proxy is read as the same proxy, by the agent and, where it knows the
kind, as a line of a pasted list. -/
structure Survives (f : Fields) (url : Text) : Prop where
  agent : ∃ upstream, parseUpstream url = .ok upstream ∧ upstream.Dials f
  line : (normaliseScheme f.kind).isOk = true → ∃ p, parseLine url = .ok p ∧ Names p f

/-- A proxy with a host of its own whose fields can be told apart in a URL. -/
structure Apart (f : Fields) : Prop where
  kind : f.kind ∈ hostedKinds
  port : 1 ≤ f.port ∧ f.port ≤ 65535
  /-- There is a host, in which no at sign stands, and which does not begin with a bracket. -/
  host : f.host ≠ [] ∧ '@' ∉ f.host ∧ f.host.head? ≠ some '['
  /-- A login and a password come together. -/
  paired : f.username.isSome = f.password.isSome
  /-- A login is not empty, and has no colon. -/
  username : ∀ user ∈ f.username, user ≠ [] ∧ ':' ∉ user
  /-- Without them the host and the port are no four fields with a port in the second place. -/
  fields : f.username = none → supplierFields (hostPort f.host (showInt f.port)) = none

/-- A tunnel whose configuration is one. -/
structure Tunnels (f : Fields) : Prop where
  kind : f.kind = wireguard
  port : 0 ≤ f.port ∧ f.port ≤ 65535
  /-- No at sign stands in its host. -/
  host : '@' ∉ f.host
  /-- The configuration is taken. -/
  config : (TunnelConfig.parse (f.password.getD [])).isOk = true

end Survival

end FuryBrowser.ProxyUrls

/-!
## What the agent reads of a proxy's URL

The three that write a URL write the same one. The agent reads it from its ends: the login up to the
first colon, the host after the last at sign, the port after the last colon.
-/

namespace FuryBrowser.ProxyUrls

open AgentDisk TextBytes TextLines TextCuts TextFields ProgramRules RelayStreams ProxyList

section Numbers

variable {n : ℤ} {m : ℕ} {c : Char}

theorem mem_showInt (h : c ∈ showInt n) : c.isDigit = true ∨ c = '-' := by
  cases n with
  | ofNat n => exact .inl (digits_of_toDigits h)
  | negSucc n =>
    rcases List.mem_cons.mp h with rfl | hdigit
    · exact .inr rfl
    · exact .inl (digits_of_toDigits hdigit)

theorem notMem_showInt (hdigit : c.isDigit = false) (hminus : c ≠ '-') : c ∉ showInt n := by
  intro h
  rcases mem_showInt h with hin | hin
  · rw [hin] at hdigit
    cases hdigit
  · exact hminus hin

theorem showInt_ne_nil : showInt n ≠ [] := by
  cases n with
  | ofNat n => exact Nat.toDigits_ne_nil
  | negSucc n => simp [showInt]

theorem parseUnsigned_showInt :
    parseUnsigned 65535 (showInt n) = some m ↔ (m : ℤ) = n ∧ m ≤ 65535 := by
  have hplus : (showInt n).head? ≠ some '+' := fun hhead =>
    notMem_showInt (by decide) (by decide) (List.mem_of_mem_head? hhead)
  rw [parseUnsigned_eq hplus, Option.filter_eq_some_iff, decide_eq_true_eq]
  refine and_congr_left' ?_
  cases n with
  | ofNat k =>
    rw [showInt, decimalValue_toDigits, Option.some_inj]
    exact ⟨fun h => h ▸ rfl, fun h => (Int.ofNat.inj h).symm⟩
  | negSucc k =>
    have hnone : decimalValue (showInt (.negSucc k)) = none := by
      unfold decimalValue
      rw [if_neg]
      intro hboth
      have hall := List.all_eq_true.mp hboth.2 '-' List.mem_cons_self
      exact absurd hall (by decide)
    rw [hnone]
    constructor
    · intro h
      cases h
    · intro h
      omega

end Numbers

section Written

variable {f : Fields} {url line kind rest host port endpoint user pass scheme : Text}
  {p : ParsedProxy}

/-- What each of the three writes. -/
def writeUrl (f : Fields) : Text :=
  if f.kind = wireguard then formatTunnel (f.password.getD []) f.host (showInt f.port)
  else format f.kind f.host (showInt f.port) f.username f.password

theorem normaliseScheme_hosted (h : normaliseScheme scheme = .ok kind) : kind ∈ hostedKinds := by
  unfold normaliseScheme at h
  dsimp only at h
  split_ifs at h
  · cases h
    decide
  · cases h
    decide
  · cases h
    decide

theorem reads_hosted (h : Reads line p) : p.scheme ∈ hostedKinds := by
  have hhttp : http ∈ hostedKinds := by decide
  cases h with
  | supplier hscheme hkind hfields hport => exact normaliseScheme_hosted hkind
  | url hscheme hkind hfields hauth hhost => exact normaliseScheme_hosted hkind
  | password hscheme hfields hport => exact hhttp
  | atSign hscheme hfields hat hauth hhost => exact hhttp
  | last hscheme hfields hat hauth hhost hlast =>
    obtain ⟨_, _, _, _, _, _, -, -, -, -, rfl⟩ := credentialsLast_some hlast
    exact hhttp
  | colons hscheme hat hfields hread =>
    obtain ⟨-, ⟨_, _, _, -, -, rfl⟩ | ⟨_, _, _, _, _, -, -, rfl⟩ |
      ⟨_, _, _, _, _, -, -, -, -, rfl⟩⟩ := parseFields_ok hread
    · exact hhttp
    · exact hhttp
    · exact hhttp

/-- What a line is read as has a host of its own. -/
theorem parseLine_hosted (h : parseLine line = .ok p) : p.scheme ∈ hostedKinds := by
  obtain ⟨named, core, q, -, hq, hout⟩ := leads_of_ok _ line (Nat.lt_succ_self _) h
  cases named with
  | false =>
    obtain rfl : p = q := hout
    exact reads_hosted (parseShape_ok.mp hq)
  | true =>
    obtain ⟨head, scheme, hscheme, rfl⟩ := hout
    exact normaliseScheme_hosted hscheme

theorem hostedKinds_spec : ∀ kind ∈ hostedKinds, ':' ∉ kind ∧ kind ≠ [] ∧ kind ≠ wireguard ∧
    (normaliseScheme kind).isOk = true ∧ (∀ c ∈ kind, isWhiteSpace c = false) := by
  have hall : ∀ kind ∈ hostedKinds, (':' ∉ kind ∧ kind ≠ [] ∧ kind ≠ wireguard ∧
      (normaliseScheme kind).isOk = true) ∧ kind.all (isWhiteSpace · = false) = true := by
    decide
  intro kind hkind
  obtain ⟨⟨hcolon, hne, hother, hok⟩, hsolid⟩ := hall kind hkind
  exact ⟨hcolon, hne, hother, hok, forall_mem_of_all hsolid⟩

theorem wireguard_spec : ':' ∉ wireguard ∧ (normaliseScheme wireguard).isOk = false := by
  decide

theorem writes_eq (h : Writes f url) : url = writeUrl f := by
  cases h with
  | @line text p h =>
    have hkind := (hostedKinds_spec p.scheme (parseLine_hosted h)).2.2.1
    rw [writeUrl, if_neg hkind]
    rfl
  | stored p =>
    unfold storedUrl writeUrl
    rfl
  | team kind host port user pass =>
    unfold proxyUrl writeUrl
    rfl

/-- What is written has a scheme, and the rest of it is read. -/
theorem parseUpstream_written (hkind : ':' ∉ kind) (hrest : rest ≠ []) :
    parseUpstream (kind ++ (schemeMark ++ rest)) = (do
      let (auth, endpoint) ← splitLogin rest
      let (host, port) ← splitEndpoint endpoint
      upstreamOf kind host port auth) := by
  have hsplit : splitOnceText schemeMark (kind ++ (schemeMark ++ rest)) = some (kind, rest) :=
    splitOnceText_append hkind "//".toList rest
  have hdirect : ¬(kind ++ (schemeMark ++ rest) = "direct".toList ∨
      kind ++ (schemeMark ++ rest) = "direct://".toList) := by
    rintro (heq | heq)
    · rw [heq] at hsplit
      cases hsplit
    · rw [heq] at hsplit
      have hnone : splitOnceText schemeMark "direct://".toList = some ("direct".toList, []) := by
        decide
      rw [hnone] at hsplit
      exact hrest (Prod.mk.inj (Option.some.inj hsplit)).2.symm
  unfold parseUpstream
  rw [if_neg hdirect, hsplit]

theorem splitEndpoint_ok {n : ℕ} : splitEndpoint endpoint = .ok (host, n) ↔
    ∃ field, rsplitOnce ':' endpoint = some (host, field) ∧
      parseUnsigned 65535 field = some n := by
  unfold splitEndpoint
  cases hsplit : rsplitOnce ':' endpoint with
  | none => simp
  | some parts =>
    obtain ⟨host', field⟩ := parts
    dsimp only
    cases hport : parseUnsigned 65535 field with
    | none => simp [hport]
    | some m => simp [hport]

theorem splitLogin_ok {auth : Option Credentials} (h : splitLogin rest = .ok (auth, endpoint)) :
    '@' ∉ endpoint ∧ ∀ c ∈ auth, ':' ∉ c.username := by
  unfold splitLogin at h
  cases hat : rsplitOnce '@' rest with
  | none =>
    rw [hat] at h
    cases h
    exact ⟨rsplitOnce_none hat, fun c hc => by cases hc⟩
  | some parts =>
    obtain ⟨login, tail⟩ := parts
    rw [hat] at h
    dsimp only at h
    split at h
    · rename_i user pass hlogin
      cases h
      refine ⟨rsplitOnce_free hat, fun c hc => ?_⟩
      cases hc
      exact splitOnce_free hlogin
    · cases h

end Written

section Agent

variable {f : Fields} {host endpoint user pass : Text} {n : ℤ} {m : ℕ} {upstream : Upstream}

theorem notMem_hostPort (h : '@' ∉ host) : '@' ∉ hostPort host (showInt n) := by
  intro hin
  rcases List.mem_append.mp hin with hhost | hrest
  · exact h hhost
  · rcases List.mem_cons.mp hrest with hcolon | hport
    · exact absurd hcolon (by decide)
    · exact notMem_showInt (by decide) (by decide) hport

theorem rsplitOnce_hostPort (host : Text) (n : ℤ) :
    rsplitOnce ':' (hostPort host (showInt n)) = some (host, showInt n) :=
  rsplitOnce_append (notMem_showInt (by decide) (by decide))

theorem splitEndpoint_hostPort : splitEndpoint (hostPort host (showInt n)) = .ok (endpoint, m) ↔
    endpoint = host ∧ (m : ℤ) = n ∧ m ≤ 65535 := by
  rw [splitEndpoint_ok, rsplitOnce_hostPort]
  constructor
  · rintro ⟨field, heq, hport⟩
    cases heq
    exact ⟨rfl, parseUnsigned_showInt.mp hport⟩
  · rintro ⟨rfl, hport⟩
    exact ⟨_, rfl, parseUnsigned_showInt.mpr hport⟩

theorem splitLogin_none (h : '@' ∉ endpoint) : splitLogin endpoint = .ok (none, endpoint) := by
  rw [splitLogin, rsplitOnce_of_notMem h]

theorem splitLogin_some (h : '@' ∉ endpoint) (huser : ':' ∉ user) :
    splitLogin ((user ++ ':' :: pass) ++ '@' :: endpoint) = .ok (some ⟨user, pass⟩, endpoint) := by
  rw [splitLogin, rsplitOnce_append h]
  dsimp only
  rw [splitOnce_append huser]

theorem withLogin_ne_nil (username password : Option Text) :
    withLogin username password (hostPort host (showInt n)) ≠ [] := by
  unfold withLogin hostPort
  split
  · simp
  · simp

/-- The parts of what the agent dials. -/
theorem agent_parts (hkind : f.kind ∈ hostedKinds)
    (h : parseUpstream (format f.kind f.host (showInt f.port) f.username f.password) = .ok upstream)
    (hdials : upstream.Dials f) : (0 ≤ f.port ∧ f.port ≤ 65535) ∧ '@' ∉ f.host ∧
      f.username.isSome = f.password.isSome ∧ ∀ user ∈ f.username, ':' ∉ user := by
  obtain ⟨hcolon, -, hother, -⟩ := hostedKinds_spec f.kind hkind
  rw [format, parseUpstream_written hcolon (withLogin_ne_nil _ _)] at h
  obtain ⟨⟨auth, endpoint⟩, hlogin, h⟩ := bind_eq_ok.mp h
  obtain ⟨⟨host, port⟩, hendpoint, h⟩ := bind_eq_ok.mp h
  obtain ⟨hat, hfree⟩ := splitLogin_ok hlogin
  obtain ⟨field, hsplit, hport⟩ := splitEndpoint_ok.mp hendpoint
  have hhost : '@' ∉ host := fun hin => hat (rsplitOnce_eq hsplit ▸ List.mem_append_left _ hin)
  have hle := parseUnsigned_le hport
  obtain ⟨hsame, hnumber, husername, hpassword⟩ : host = f.host ∧ (port : ℤ) = f.port ∧
      auth.map Credentials.username = f.username ∧
      auth.map Credentials.password = f.password := by
    dsimp only at h
    unfold upstreamOf at h
    split_ifs at h
    · cases h
      exact hdials.2
    · cases h
      exact hdials.2
  refine ⟨by omega, hsame ▸ hhost, ?_, ?_⟩
  · rw [← husername, ← hpassword, Option.isSome_map, Option.isSome_map]
  · intro user huser
    rw [← husername] at huser
    obtain ⟨c, hc, rfl⟩ := Option.map_eq_some_iff.mp huser
    exact hfree c hc

/-- What the agent reads when the fields can be told apart. -/
theorem parseUpstream_format (h : Apart f) : ∃ upstream,
    parseUpstream (format f.kind f.host (showInt f.port) f.username f.password) = .ok upstream ∧
      upstream.Dials f := by
  obtain ⟨hcolon, -, -, -⟩ := hostedKinds_spec f.kind h.kind
  obtain ⟨port, hport⟩ : ∃ port : ℕ, (port : ℤ) = f.port :=
    ⟨f.port.toNat, Int.toNat_of_nonneg (by have := h.port.1; omega)⟩
  have hendpoint : splitEndpoint (hostPort f.host (showInt f.port)) = .ok (f.host, port) :=
    splitEndpoint_hostPort.mpr ⟨rfl, hport, by have := h.port.2; omega⟩
  have hat : '@' ∉ hostPort f.host (showInt f.port) := notMem_hostPort h.host.2.1
  obtain ⟨auth, hlogin, husername, hpassword⟩ : ∃ auth,
      splitLogin (withLogin f.username f.password (hostPort f.host (showInt f.port))) =
        .ok (auth, hostPort f.host (showInt f.port)) ∧
      auth.map Credentials.username = f.username ∧
      auth.map Credentials.password = f.password := by
    have hpaired := h.paired
    have hfree := h.username
    cases husername : f.username with
    | none =>
      rw [husername] at hpaired
      have hpassword : f.password = none := Option.not_isSome_iff_eq_none.mp (by
        rw [← hpaired]
        exact Bool.false_ne_true)
      exact ⟨none, splitLogin_none hat, rfl, hpassword.symm⟩
    | some user =>
      rw [husername] at hpaired hfree
      obtain ⟨pass, hpassword⟩ := Option.isSome_iff_exists.mp hpaired.symm
      rw [hpassword]
      exact ⟨_, splitLogin_some hat (hfree user rfl).2, rfl, rfl⟩
  rw [format, parseUpstream_written hcolon (withLogin_ne_nil _ _), hlogin]
  change ∃ upstream, (splitEndpoint _ >>= _) = Except.ok upstream ∧ _
  rw [hendpoint]
  have hkind := h.kind
  simp only [hostedKinds, List.mem_cons, List.not_mem_nil, or_false] at hkind
  by_cases hhttp : f.kind = "http".toList ∨ f.kind = "https".toList
  · refine ⟨.http f.host port auth, ?_, hhttp, rfl, hport, husername, hpassword⟩
    exact if_pos hhttp
  · have hsocks : f.kind = "socks5".toList ∨ f.kind = "socks5h".toList := by
      rcases hkind with heq | heq | heq | heq
      · exact absurd (.inl heq) hhttp
      · exact absurd (.inr heq) hhttp
      · exact .inl heq
      · exact .inr heq
    refine ⟨.socks5 f.host port auth, ?_, hsocks, rfl, hport, husername, hpassword⟩
    exact (if_neg hhttp).trans (if_pos hsocks)

end Agent

end FuryBrowser.ProxyUrls
