import FuryBrowser.ProxyUrls
import FuryBrowser.TextCuts

/-!
# Which proxies survive their own URL

As a line of a pasted list a URL is looked at for four fields first, where there is no at sign, then
for brackets around the host, and what is empty is refused; but no writer puts brackets around a
host. A proxy survives exactly when its fields can be told apart, or when it is a tunnel whose
configuration is taken.
-/

namespace FuryBrowser.ProxyUrls

open AgentDisk TextBytes TextLines TextCuts TextFields TextTrims ProgramRules RelayStreams ProxyList

section Lines

variable {f : Fields} {kind host endpoint user pass : Text} {username password : Option Text}
  {n : ℤ} {q : ParsedProxy}

theorem withLogin_ends (username password : Option Text) (host port : Text) :
    ∃ front, withLogin username password (hostPort host port) = front ++ port := by
  unfold withLogin hostPort
  split
  · rename_i user pass
    exact ⟨user ++ ':' :: (pass ++ '@' :: (host ++ [':'])), by simp⟩
  · exact ⟨host ++ [':'], by simp⟩

/-- Nothing stands before the kind or after the port. -/
theorem trimText_format (hne : kind ≠ []) (hsolid : ∀ c ∈ kind, isWhiteSpace c = false) :
    trimText (format kind host (showInt n) username password) =
      format kind host (showInt n) username password := by
  apply trimText_of_solid
  constructor
  · intro c hc
    rw [format, List.head?_append_of_ne_nil _ hne] at hc
    exact hsolid c (List.mem_of_mem_head? hc)
  · intro c hc
    obtain ⟨front, hends⟩ := withLogin_ends username password host (showInt n)
    rw [format, hends, ← List.append_assoc, ← List.append_assoc,
      List.getLast?_append_of_ne_nil _ showInt_ne_nil] at hc
    rcases mem_showInt (List.mem_of_mem_getLast? hc) with hdigit | hminus
    · exact isWhiteSpace_of_isDigit hdigit
    · rw [hminus]
      decide

/-- As a line, what is written behind a word is read as a URL. -/
theorem parseLine_formatted (hcolon : ':' ∉ kind) (hne : kind ≠ [])
    (hsolid : ∀ c ∈ kind, isWhiteSpace c = false) :
    parseLine (format kind host (showInt n) username password) = .ok q ↔
      parseUrl kind (withLogin username password (hostPort host (showInt n))) = .ok q := by
  have htrim : trimText (format kind host (showInt n) username password) =
      format kind host (showInt n) username password := trimText_format hne hsolid
  obtain ⟨rest, hrest⟩ : ∃ rest, rest = withLogin username password (hostPort host (showInt n)) :=
    ⟨_, rfl⟩
  obtain ⟨url, hurl⟩ : ∃ url, url = format kind host (showInt n) username password := ⟨_, rfl⟩
  rw [← hurl] at htrim ⊢
  rw [← hrest]
  rw [format, ← hrest] at hurl
  have hscheme : splitOnceText schemeMark url = some (kind, rest) :=
    hurl ▸ splitOnceText_append hcolon "//".toList rest
  have hrow : isRow url = false := by
    rw [isRow, hscheme]
    simp
  have hword : wordReading url = none := by
    refine Option.eq_none_iff_forall_ne_some.mpr fun p hp => ?_
    obtain ⟨head, tail, scheme, r, hsplit, hslashes, -⟩ := wordReading_some.mp hp
    have hmarks : ∀ d ∈ kind, d ∉ [' ', '\t', ':'] := by
      intro d hd hin
      simp only [List.mem_cons, List.not_mem_nil, or_false] at hin
      have hblank := hsolid d hd
      rcases hin with rfl | rfl | rfl
      · exact absurd hblank (by decide)
      · exact absurd hblank (by decide)
      · exact hcolon hd
    have hcut : splitOnceAny [' ', '\t', ':'] url = some (kind, "//".toList ++ rest) :=
      hurl ▸ splitOnceAny_append hmarks (by decide)
    rw [htrim, hcut] at hsplit
    cases hsplit
    exact absurd hslashes (by simp)
  have hjoined : rejoined url = none := by
    unfold rejoined
    dsimp only
    rw [htrim, hscheme, if_neg (by simp)]
  have hstrict : parseStrict url = .ok q ↔ parseUrl kind rest = .ok q := by
    have hshape : parseShape url = parseUrl kind rest := by
      unfold parseShape
      rw [hscheme]
    have hurlne : url ≠ [] := by
      rw [hurl]
      simp [hne]
    rw [parseStrict_ok, htrim, hrow, hshape]
    simp [hurlne]
  rw [parseLine_ok, hstrict, hword, hjoined]
  simp

theorem parseLine_format (hkind : kind ∈ hostedKinds) :
    parseLine (format kind host (showInt n) username password) = .ok q ↔
      parseUrl kind (withLogin username password (hostPort host (showInt n))) = .ok q := by
  obtain ⟨hcolon, hne, -, -, hsolid⟩ := hostedKinds_spec kind hkind
  exact parseLine_formatted hcolon hne hsolid

end Lines

section Rereading

variable {f : Fields} {scheme rest host user pass : Text} {n : ℤ} {m : ℕ} {q : ParsedProxy}

theorem parsePort_showInt : parsePort (showInt n) = .ok m ↔ (m : ℤ) = n ∧ m ≤ 65535 ∧ m ≠ 0 := by
  have htrim : trimText (showInt n) = showInt n := trimText_of_forall fun c hc => by
    rcases mem_showInt hc with hdigit | hminus
    · exact isWhiteSpace_of_isDigit hdigit
    · rw [hminus]
      decide
  unfold parsePort
  rw [htrim, bind_eq_ok]
  constructor
  · rintro ⟨k, hk, h⟩
    obtain ⟨heq, hle⟩ := parseUnsigned_showInt.mp (okOr_ok.mp hk)
    by_cases hzero : k = 0
    · rw [if_pos hzero] at h
      cases h
    · rw [if_neg hzero] at h
      cases h
      exact ⟨heq, hle, hzero⟩
  · rintro ⟨heq, hle, hzero⟩
    exact ⟨m, okOr_ok.mpr (parseUnsigned_showInt.mpr ⟨heq, hle⟩), if_neg hzero⟩

/-- A host is read back as it is unless it is empty or begins with a bracket. -/
theorem splitHostPort_hostPort : splitHostPort (hostPort host (showInt n)) = .ok (host, m) ↔
    host ≠ [] ∧ host.head? ≠ some '[' ∧ (m : ℤ) = n ∧ m ≤ 65535 ∧ m ≠ 0 := by
  rw [splitHostPort_ok, rsplitOnce_hostPort]
  constructor
  · rintro (⟨inner, rest, field, hbracket, hclose, -⟩ | ⟨hbracket, field, hsplit, hne, hport⟩)
    · have hwhole := stripStart_eq hbracket
      have hinner := splitOnce_eq hclose
      exfalso
      cases host with
      | nil => cases hwhole
      | cons c tail =>
        -- What is read between brackets begins after the first of them.
        obtain ⟨rfl, htail⟩ := List.cons.inj hwhole
        have hcut := congrArg (List.drop (tail.length + 1)) (htail.trans hinner)
        have hleft : List.drop (tail.length + 1) (tail ++ ':' :: showInt n) = showInt n := by
          rw [← List.drop_drop, List.drop_left]
          rfl
        have hright : List.drop (tail.length + 1) ('[' :: tail ++ ']' :: rest) = ']' :: rest :=
          List.drop_left' rfl
        rw [hright] at hcut
        have hport : showInt n = ']' :: rest := hleft.symm.trans hcut
        have hin : ']' ∈ showInt n := by
          rw [hport]
          exact List.mem_cons_self
        exact notMem_showInt (by decide) (by decide) hin
    · cases hsplit
      refine ⟨hne, fun hhead => ?_, parsePort_showInt.mp hport⟩
      obtain ⟨tail, rfl⟩ : ∃ tail, host = '[' :: tail := by
        cases host with
        | nil => cases hhead
        | cons c tail => exact ⟨tail, by rw [Option.some.inj hhead]⟩
      have hsome : stripStart ['['] (hostPort ('[' :: tail) (showInt n)) =
          some (tail ++ ':' :: showInt n) := stripStart_append ['['] _
      rw [hsome] at hbracket
      cases hbracket
  · rintro ⟨hne, hhead, hport⟩
    refine .inr ⟨?_, _, rfl, hne, parsePort_showInt.mpr hport⟩
    cases hstrip : stripStart ['['] (hostPort host (showInt n)) with
    | none => rfl
    | some inner =>
      have hwhole := stripStart_eq hstrip
      cases host with
      | nil => exact absurd rfl hne
      | cons c tail =>
        exact absurd (congrArg some (List.cons.inj hwhole).1) hhead

theorem parseUrl_ok : parseUrl scheme rest = .ok q ↔ ∃ kind, normaliseScheme scheme = .ok kind ∧
    ((∃ host field user pass port, supplierFields rest = some (host, field, user, pass) ∧
      parsePort field = .ok port ∧ q = ⟨kind, host, port, some user, some pass, .url⟩) ∨
    supplierFields rest = none ∧ ∃ username password hostport host port,
      splitAtSign rest = .ok (username, password, hostport) ∧
      splitHostPort hostport = .ok (host, port) ∧
      q = ⟨kind, host, port, username, password, .url⟩) := by
  unfold parseUrl
  rw [bind_eq_ok]
  refine exists_congr fun kind => and_congr_right fun _ => ?_
  cases hfields : supplierFields rest with
  | some parts =>
    obtain ⟨host, field, user, pass⟩ := parts
    dsimp only
    constructor
    · intro h
      obtain ⟨port, hport, h⟩ := bind_eq_ok.mp h
      cases h
      exact .inl ⟨host, field, user, pass, port, rfl, hport, rfl⟩
    · rintro (⟨_, _, _, _, port, heq, hport, rfl⟩ | ⟨hnone, -⟩)
      · cases heq
        exact bind_eq_ok.mpr ⟨port, hport, rfl⟩
      · cases hnone
  | none =>
    dsimp only
    constructor
    · intro h
      obtain ⟨⟨username, password, hostport⟩, hauth, h⟩ := bind_eq_ok.mp h
      obtain ⟨⟨host, port⟩, hhost, h⟩ := bind_eq_ok.mp h
      cases h
      exact .inr ⟨rfl, username, password, hostport, host, port, hauth, hhost, rfl⟩
    · rintro (⟨_, _, _, _, _, heq, -⟩ | ⟨-, username, password, hostport, host, port, hauth, hhost,
        rfl⟩)
      · cases heq
      · exact bind_eq_ok.mpr ⟨_, hauth, bind_eq_ok.mpr ⟨_, hhost, rfl⟩⟩

/-- A login and its password are taken apart again, unless the login is empty. -/
theorem splitAtSign_withLogin {username password : Option Text} (h : '@' ∉ rest)
    (hpaired : username.isSome = password.isSome) (hfree : ∀ user ∈ username, ':' ∉ user) :
    splitAtSign (withLogin username password rest) =
      if username = some [] then .error .emptyUsername else .ok (username, password, rest) := by
  cases username with
  | none =>
    cases password with
    | none =>
      change splitAtSign rest = _
      rw [splitAtSign, rsplitOnce_of_notMem h]
      rfl
    | some pass => cases hpaired
  | some user =>
    cases password with
    | none => cases hpaired
    | some pass =>
      change splitAtSign ((user ++ ':' :: pass) ++ '@' :: rest) = _
      rw [splitAtSign, rsplitOnce_append h]
      dsimp only
      rw [splitOnce_append (hfree user rfl)]
      change (if user = [] then _ else _) = _
      by_cases hnil : user = []
      · rw [if_pos hnil, if_pos (congrArg some hnil)]
      · rw [if_neg hnil, if_neg fun heq => hnil (Option.some.inj heq)]
        rfl

theorem supplierFields_at (h : '@' ∈ rest) : supplierFields rest = none := by
  rw [supplierFields, if_neg fun hboth => hboth.1 h]

end Rereading

section Survivors

variable {f : Fields} {url : Text} {n : ℤ}

/-- Four fields are read only of a URL without a login. -/
theorem supplierFields_withLogin (hpaired : f.username.isSome = f.password.isSome) {rest : Text}
    (h : f.username = none → supplierFields rest = none) :
    supplierFields (withLogin f.username f.password rest) = none := by
  cases huser : f.username with
  | none =>
    rw [huser] at hpaired
    have hnone : f.password = none := Option.not_isSome_iff_eq_none.mp (by
      rw [← hpaired]
      exact Bool.false_ne_true)
    rw [hnone]
    exact h huser
  | some user =>
    rw [huser] at hpaired
    obtain ⟨pass, hpass⟩ := Option.isSome_iff_exists.mp hpaired.symm
    rw [hpass]
    exact supplierFields_at (by simp [withLogin])

/-- The fields of a proxy that survives can be told apart. -/
theorem apart_of_survives (hkind : f.kind ∈ hostedKinds)
    (h : Survives f (format f.kind f.host (showInt f.port) f.username f.password)) : Apart f := by
  obtain ⟨upstream, hread, hdials⟩ := h.agent
  obtain ⟨hport, hat, hpaired, hcolon⟩ := agent_parts hkind hread hdials
  have hat' : '@' ∉ hostPort f.host (showInt f.port) := notMem_hostPort hat
  obtain ⟨q, hq, -, hhost, hnumber, husername, hpassword⟩ :=
    h.line (hostedKinds_spec f.kind hkind).2.2.2.1
  obtain ⟨kind, -, ⟨host, field, user, pass, port, hfields, -, rfl⟩ |
    ⟨hfields, username, password, hostport, host, port, hauth, hendpoint, rfl⟩⟩ :=
    parseUrl_ok.mp ((parseLine_format hkind).mp hq)
  · -- Four fields are read as a login, which is not there.
    have hlogin : f.username ≠ none := by
      rw [← husername]
      exact Option.some_ne_none _
    rw [supplierFields_withLogin hpaired fun hnone => absurd hnone hlogin] at hfields
    cases hfields
  · rw [splitAtSign_withLogin hat' hpaired hcolon] at hauth
    split_ifs at hauth with hempty
    cases hauth
    change host = f.host at hhost
    rw [hhost] at hendpoint
    obtain ⟨hne, hhead, -, hle, hzero⟩ := splitHostPort_hostPort.mp hendpoint
    refine ⟨hkind, ⟨?_, hport.2⟩, ⟨hne, hat, hhead⟩, hpaired,
      fun user huser => ⟨?_, hcolon user huser⟩, fun hnone => ?_⟩
    · change (port : ℤ) = f.port at hnumber
      omega
    · rintro rfl
      exact hempty huser
    · have hpass : f.password = none := Option.not_isSome_iff_eq_none.mp (by
        rw [← hpaired, hnone]
        exact Bool.false_ne_true)
      rw [hnone, hpass] at hfields
      exact hfields

/-- A proxy whose fields can be told apart survives. -/
theorem survives_of_apart (h : Apart f) :
    Survives f (format f.kind f.host (showInt f.port) f.username f.password) := by
  refine ⟨parseUpstream_format h, fun hscheme => ?_⟩
  obtain ⟨scheme, hscheme⟩ := isOk_iff.mp hscheme
  obtain ⟨port, hport⟩ : ∃ port : ℕ, (port : ℤ) = f.port :=
    ⟨f.port.toNat, Int.toNat_of_nonneg (by have := h.port.1; omega)⟩
  obtain ⟨hone, hle⟩ := h.port
  refine ⟨⟨scheme, f.host, port, f.username, f.password, .url⟩, (parseLine_format h.kind).mpr
    (parseUrl_ok.mpr ⟨scheme, hscheme, .inr ⟨?_, f.username, f.password,
      hostPort f.host (showInt f.port), f.host, port, ?_, ?_, rfl⟩⟩), hscheme, rfl, hport, rfl, rfl⟩
  · exact supplierFields_withLogin h.paired h.fields
  · rw [splitAtSign_withLogin (notMem_hostPort h.host.2.1) h.paired
      fun user huser => (h.username user huser).2, if_neg]
    intro hempty
    exact (h.username [] hempty).1 rfl
  · exact splitHostPort_hostPort.mpr ⟨h.host.1, h.host.2.2, hport, by omega, by omega⟩

/-- The secret of a tunnel is its configuration, as text. -/
theorem fromUrlSecret_encode (conf : Text) : fromUrlSecret (Base64Url.encode (bytesOf conf)) =
    (TunnelConfig.parse conf).mapError .config := by
  have hfree : '=' ∉ Base64Url.encode (bytesOf conf) := fun hin =>
    absurd (Base64Url.encode_values _ '=' hin) (by decide)
  have htrim : trimEndMatches '=' (Base64Url.encode (bytesOf conf)) =
      Base64Url.encode (bytesOf conf) := trimEndMatches_of_notMem hfree
  have hbytes : bytesOf conf = utf8 (.ofList conf) := by
    rw [utf8, String.toUTF8, String.toByteArray_ofList]
    simp [bytesOf, List.utf8Encode]
  have htext : fromUtf8 (bytesOf conf) = some (.ofList conf) := by
    rw [hbytes, fromUtf8_utf8]
  rw [fromUrlSecret, htrim, Base64Url.decode_encode]
  dsimp only
  rw [htext]
  dsimp only
  rw [String.toList_ofList]

/-- A secret with another character in it is not read. -/
theorem fromUrlSecret_at {secret : Text} (h : '@' ∈ secret) :
    fromUrlSecret secret = .error .notBase64 := by
  have hnone : Base64Url.decode (trimEndMatches '=' secret) = none := by
    cases hread : Base64Url.decode (trimEndMatches '=' secret) with
    | none => rfl
    | some raw =>
      have hvalue := Base64Url.decode_values hread '@' (mem_trimEndMatches h (by decide))
      exact absurd hvalue (by decide)
  rw [fromUrlSecret, hnone]

theorem upstreamOf_wireguard (host : Text) (port : ℕ) (c : Credentials) :
    upstreamOf wireguard host port (some c) = (fromUrlSecret c.password).map .wireGuard := by
  have hhttp : ¬(wireguard = "http".toList ∨ wireguard = "https".toList) := by decide
  have hsocks : ¬(wireguard = "socks5".toList ∨ wireguard = "socks5h".toList) := by decide
  exact (if_neg hhttp).trans ((if_neg hsocks).trans (if_pos rfl))

/-- A tunnel's URL, by the credentials that are read of it. -/
theorem parseUpstream_tunnel {conf host endpoint blob : Text}
    (hrest : "wg:".toList ++ Base64Url.encode (bytesOf conf) ++ '@' :: hostPort host (showInt n) =
      ("wg".toList ++ ':' :: blob) ++ '@' :: endpoint) (hat : '@' ∉ endpoint) :
    parseUpstream (formatTunnel conf host (showInt n)) = (do
      let _ ← splitEndpoint endpoint
      (fromUrlSecret blob).map .wireGuard) := by
  have hfree : ':' ∉ "wg".toList := by decide
  rw [formatTunnel, hrest, parseUpstream_written wireguard_spec.1 (by simp),
    splitLogin_some hat hfree]
  change (splitEndpoint endpoint >>= _) = (splitEndpoint endpoint >>= _)
  refine congrArg _ (funext fun parts => ?_)
  exact upstreamOf_wireguard parts.1 parts.2 ⟨"wg".toList, blob⟩

/-- The agent reads a tunnel when no at sign stands in its host, its port is one, or 0, and its
configuration is taken. -/
theorem parseUpstream_tunnel_ok {conf host : Text} {upstream : Upstream} :
    parseUpstream (formatTunnel conf host (showInt n)) = .ok upstream ↔
      '@' ∉ host ∧ (0 ≤ n ∧ n ≤ 65535) ∧
        ∃ config, TunnelConfig.parse conf = .ok config ∧ upstream = .wireGuard config := by
  by_cases hin : '@' ∈ host
  · refine ⟨fun h => ?_, fun h => absurd hin h.1⟩
    have hmore : '@' ∈ hostPort host (showInt n) := List.mem_append_left _ hin
    cases hcut : rsplitOnce '@' (hostPort host (showInt n)) with
    | none => exact absurd hmore (rsplitOnce_none hcut)
    | some parts =>
      obtain ⟨before, endpoint⟩ := parts
      have hrest : "wg:".toList ++ Base64Url.encode (bytesOf conf) ++
          '@' :: hostPort host (showInt n) = ("wg".toList ++ ':' ::
            (Base64Url.encode (bytesOf conf) ++ '@' :: before)) ++ '@' :: endpoint := by
        rw [rsplitOnce_eq hcut]
        simp
      rw [parseUpstream_tunnel hrest (rsplitOnce_free hcut)] at h
      obtain ⟨parts, -, h⟩ := bind_eq_ok.mp h
      rw [fromUrlSecret_at (by simp)] at h
      cases h
  · have hrest : "wg:".toList ++ Base64Url.encode (bytesOf conf) ++
        '@' :: hostPort host (showInt n) = ("wg".toList ++ ':' ::
          Base64Url.encode (bytesOf conf)) ++ '@' :: hostPort host (showInt n) := by
      simp
    rw [parseUpstream_tunnel hrest (notMem_hostPort hin), bind_eq_ok, fromUrlSecret_encode]
    constructor
    · rintro ⟨⟨host', port⟩, hendpoint, h⟩
      obtain ⟨-, hport, hle⟩ := splitEndpoint_hostPort.mp hendpoint
      refine ⟨hin, by omega, ?_⟩
      cases hparse : TunnelConfig.parse conf with
      | error e =>
        rw [hparse] at h
        cases h
      | ok config =>
        rw [hparse] at h
        cases h
        exact ⟨config, rfl, rfl⟩
    · rintro ⟨-, hport, config, hparse, rfl⟩
      refine ⟨(host, n.toNat), splitEndpoint_hostPort.mpr ⟨rfl, ?_, ?_⟩, by rw [hparse]; rfl⟩
      · exact Int.toNat_of_nonneg hport.1
      · omega

theorem kind_of_dials {upstream : Upstream} (h : upstream.Dials f) :
    f.kind ∈ hostedKinds ∨ f.kind = wireguard := by
  cases upstream with
  | http host port auth =>
    rcases h.1 with hkind | hkind
    · exact .inl (hkind ▸ by decide)
    · exact .inl (hkind ▸ by decide)
  | socks5 host port auth =>
    rcases h.1 with hkind | hkind
    · exact .inl (hkind ▸ by decide)
    · exact .inl (hkind ▸ by decide)
  | direct => exact h.elim
  | wireGuard config => exact .inr h.1

/-- A proxy survives its own URL exactly when its fields can be told apart, or it is a tunnel whose
configuration is taken. -/
theorem survives_iff_apart (h : Writes f url) : Survives f url ↔ Apart f ∨ Tunnels f := by
  obtain rfl := writes_eq h
  unfold writeUrl
  by_cases htunnel : f.kind = wireguard
  · rw [if_pos htunnel]
    constructor
    · intro hsurvives
      obtain ⟨upstream, hread, hdials⟩ := hsurvives.agent
      obtain ⟨hat, hport, config, hparse, rfl⟩ := parseUpstream_tunnel_ok.mp hread
      exact .inr ⟨htunnel, hport, hat, by rw [hparse]; rfl⟩
    · rintro (hapart | htunnels)
      · exact absurd htunnel (hostedKinds_spec f.kind hapart.kind).2.2.1
      · obtain ⟨config, hparse⟩ : ∃ config,
            TunnelConfig.parse (f.password.getD []) = .ok config := by
          have hconfig := htunnels.config
          cases hparse : TunnelConfig.parse (f.password.getD []) with
          | error e =>
            rw [hparse] at hconfig
            cases hconfig
          | ok config => exact ⟨config, rfl⟩
        refine ⟨⟨.wireGuard config, parseUpstream_tunnel_ok.mpr
          ⟨htunnels.host, htunnels.port, config, hparse, rfl⟩, htunnel, hparse⟩, fun hscheme => ?_⟩
        rw [htunnel, wireguard_spec.2] at hscheme
        cases hscheme
  · rw [if_neg htunnel]
    constructor
    · intro hsurvives
      obtain ⟨upstream, -, hdials⟩ := hsurvives.agent
      exact .inl (apart_of_survives ((kind_of_dials hdials).resolve_right htunnel) hsurvives)
    · rintro (hapart | htunnels)
      · exact survives_of_apart hapart
      · exact absurd htunnels.kind htunnel

/-- A proxy of a team, with a name for its host. -/
theorem survives_iff_apart_named :
    Survives ⟨"socks5".toList, "gw.example.com".toList, 1080, some "bob".toList, some "a:b".toList⟩
      (proxyUrl "socks5".toList "gw.example.com".toList 1080 (some "bob".toList)
        (some "a:b".toList)) ↔
      Apart ⟨"socks5".toList, "gw.example.com".toList, 1080, some "bob".toList,
        some "a:b".toList⟩ ∨
      Tunnels ⟨"socks5".toList, "gw.example.com".toList, 1080, some "bob".toList,
        some "a:b".toList⟩ :=
  survives_iff_apart (.team _ _ _ _ _)

/-- An address between brackets is written without them, and read as another host with a login. -/
theorem brackets_lost : ¬∀ f url, Writes f url → Survives f url := by
  intro h
  have hline : parseLine "socks5://[2001:80::1]:1080".toList =
      .ok ⟨"socks5".toList, "2001:80::1".toList, 1080, none, none, .url⟩ := by decide
  obtain ⟨p, hp, -, hhost, -⟩ := (h _ _ (.line hline)).line (by decide)
  have hread :
      parseLine (parsedUrl ⟨"socks5".toList, "2001:80::1".toList, 1080, none, none, .url⟩) =
      .ok ⟨"socks5".toList, "2001".toList, 80, some [], some "1:1080".toList, .url⟩ := by
    decide
  rw [hread] at hp
  cases hp
  revert hhost
  decide

end Survivors

end FuryBrowser.ProxyUrls
