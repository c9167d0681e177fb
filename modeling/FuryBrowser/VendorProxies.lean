import FuryBrowser.ProxyUrlLines

/-!
# A vendor's proxy as a line

What another program kept of a proxy is written as a line of a pasted list, unescaped, and read
again by the reader of such lists. The line is the proxy that was meant exactly if its parts can be
told apart there, and its kind and port are ones that the reader takes.
-/

namespace FuryBrowser.VendorProxies

open AgentDisk TextBytes TextLines TextCuts TextFields ProgramRules ProxyList ProxyUrls

section Writing

/-- A proxy as another program kept it. -/
structure Record where
  kind : Text
  host : Text
  port : ℕ
  user : Text
  pass : Text
  deriving DecidableEq, Repr

/-- Why there is no line. -/
inductive Note where
  /-- "the proxy has no address in the source" -/
  | noAddress
  /-- "a … proxy is not one Fury can use" -/
  | kind (kind : Text)
  /-- "the proxy username contains a colon" -/
  | colon
  deriving DecidableEq, Repr

/-- The kind of a record, under the name it has here. -/
def Record.kindName (r : Record) : Text :=
  let kind := lowerText (trimText r.kind)
  if kind = "socks".toList ∨ kind = "socks5h".toList then "socks5".toList else kind

/-- The kinds that are written. -/
def writtenKinds : List Text := ["http".toList, "https".toList, "socks5".toList, "socks4".toList]

/-- `proxy_line`. -/
def proxyLine (r : Record) : Except Note Text :=
  let kind := r.kindName
  let host := trimText r.host
  if host = [] ∨ r.port = 0 then .error .noAddress
  else if kind ∉ writtenKinds then .error (.kind kind)
  else if ':' ∈ r.user then .error .colon
  else
    let auth := if r.user = [] then [] else r.user ++ ':' :: r.pass ++ ['@']
    .ok (kind ++ schemeMark ++ auth ++ host ++ ':' :: Nat.toDigits 10 r.port)

end Writing

section Meaning

/-- A host without the brackets around it. -/
def bare (host : Text) : Text :=
  match host with
  | '[' :: inner => if inner.getLast? = some ']' then inner.dropLast else host
  | _ => host

/-- The proxy that was read is the one that was meant. -/
structure Same (r : Record) (p : ParsedProxy) : Prop where
  scheme : p.scheme = r.kindName
  host : p.host = bare (trimText r.host)
  port : p.port = r.port
  /-- No login is an empty one. -/
  user : p.username.getD [] = r.user
  pass : p.password.getD [] = r.pass

/-- There is no line, or the proxy that was meant is read of it. -/
def Carried (r : Record) : Prop :=
  ∀ line, proxyLine r = .ok line → ∃ p, parseLine line = .ok p ∧ Same r p

/-- A record for which a line is written. -/
structure Named (r : Record) : Prop where
  host : trimText r.host ≠ []
  port : r.port ≠ 0
  kind : r.kindName ∈ writtenKinds
  user : ':' ∉ r.user

/-- A bracket before a host is closed by the last character. -/
def Bracketed (host : Text) : Prop :=
  ∀ inner, host = '[' :: inner → ∃ name, inner = name ++ [']'] ∧ ']' ∉ name

/-- A record whose parts can be told apart in its line. -/
structure Distinct (r : Record) : Prop where
  kind : r.kindName ≠ "socks4".toList
  port : r.port ≤ 65535
  host : '@' ∉ trimText r.host
  brackets : Bracketed (trimText r.host)
  /-- Without a login there is no password, and the host and the port are no four fields with a
  port in the second place. -/
  login : r.user = [] →
    r.pass = [] ∧ supplierFields (hostPort (trimText r.host) (showInt r.port)) = none

end Meaning

section Parts

variable {host inner rest field user pass : Text} {n : ℤ} {m : ℕ}

theorem showInt_natCast (n : ℕ) : showInt n = Nat.toDigits 10 n := rfl

/-- No colon stands in what is read as a port. -/
theorem parsePort_colon (h : parsePort field = .ok m) : ':' ∉ field := by
  obtain ⟨k, hk, -⟩ := bind_eq_ok.mp h
  have hnumber := okOr_ok.mp hk
  obtain ⟨before, after, heq, hbefore, hafter, -⟩ := TextTrims.trimText_spec field
  intro hin
  rw [heq, List.mem_append, List.mem_append] at hin
  have hblank : isWhiteSpace ':' ≠ true := by decide
  rcases hin with (hin | hin) | hin
  · exact hblank (hbefore _ hin)
  · have hvalue := (Option.filter_eq_some_iff.mp hnumber).1
    split at hvalue
    · rename_i digits hplus
      rw [hplus] at hin
      rcases List.mem_cons.mp hin with hc | hc
      · exact absurd hc (by decide)
      · exact absurd ((decimalValue_digits hvalue).2 _ hc) (by decide)
    · exact absurd ((decimalValue_digits hvalue).2 _ hin) (by decide)
  · exact hblank (hafter _ hin)

/-- A host in brackets is read back without them. -/
theorem splitHostPort_bracket : splitHostPort (hostPort ('[' :: inner) (showInt n)) = .ok (host, m) ↔
    inner = host ++ [']'] ∧ ']' ∉ host ∧ parsePort (showInt n) = .ok m := by
  have hstrip : stripStart ['['] (hostPort ('[' :: inner) (showInt n)) =
      some (inner ++ ':' :: showInt n) := stripStart_append ['['] _
  rw [splitHostPort_ok, hstrip]
  constructor
  · rintro (⟨inner', after, field, heq, hclose, hcolon, hport⟩ | ⟨hnone, -⟩)
    · cases heq
      have hwhole := splitOnce_eq hclose
      have hafter := stripStart_eq hcolon
      have hleft : rsplitOnce ':' (inner ++ ':' :: showInt n) = some (inner, showInt n) :=
        rsplitOnce_append (notMem_showInt (by decide) (by decide))
      have hright : rsplitOnce ':' ((host ++ [']']) ++ ':' :: field) = some (host ++ [']'], field) :=
        rsplitOnce_append (parsePort_colon hport)
      have hsame : inner ++ ':' :: showInt n = (host ++ [']']) ++ ':' :: field := by
        rw [hwhole, hafter]
        simp
      rw [hsame, hright] at hleft
      cases hleft
      exact ⟨rfl, splitOnce_free hclose, hport⟩
    · cases hnone
  · rintro ⟨rfl, hfree, hport⟩
    refine .inl ⟨_, ':' :: showInt n, showInt n, rfl, ?_, stripStart_append [':'] _, hport⟩
    have hwhole : host ++ [']'] ++ ':' :: showInt n = host ++ ']' :: ':' :: showInt n := by simp
    rw [hwhole]
    exact splitOnce_append hfree

/-- What is read as a host stands in the text. -/
theorem mem_splitHostPort {c : Char} {hostport : Text}
    (h : splitHostPort hostport = .ok (host, m)) (hc : c ∈ host) : c ∈ hostport := by
  rcases splitHostPort_ok.mp h with ⟨inner, after, field, hbracket, hclose, -⟩ | ⟨-, field, hsplit, -⟩
  · rw [stripStart_eq hbracket, splitOnce_eq hclose]
    simp [hc]
  · rw [rsplitOnce_eq hsplit]
    simp [hc]

/-- Four fields have three colons between them. -/
theorem supplierFields_eq (h : supplierFields rest = some (host, field, user, pass)) :
    rest = host ++ ':' :: (field ++ ':' :: (user ++ ':' :: pass)) ∧ ':' ∉ host ∧
      rest.head? ≠ some '[' := by
  unfold supplierFields at h
  split at h
  · rename_i hplain
    split at h
    · rename_i host' field' user' pass' hfields
      split at h
      · cases h
        unfold splitUpTo at hfields
        cases hfirst : splitOnce ':' rest with
        | none => simp [hfirst] at hfields
        | some parts =>
          obtain ⟨a, after⟩ := parts
          simp only [hfirst, List.cons.injEq] at hfields
          obtain ⟨rfl, hfields⟩ := hfields
          unfold splitUpTo at hfields
          cases hsecond : splitOnce ':' after with
          | none => simp [hsecond] at hfields
          | some parts =>
            obtain ⟨b, after'⟩ := parts
            simp only [hsecond, List.cons.injEq] at hfields
            obtain ⟨rfl, hfields⟩ := hfields
            unfold splitUpTo at hfields
            cases hthird : splitOnce ':' after' with
            | none => simp [hthird] at hfields
            | some parts =>
              obtain ⟨c, after''⟩ := parts
              simp only [hthird, splitUpTo, List.cons.injEq] at hfields
              obtain ⟨rfl, rfl, -⟩ := hfields
              rw [splitOnce_eq hfirst, splitOnce_eq hsecond, splitOnce_eq hthird]
              refine ⟨rfl, splitOnce_free hfirst, ?_⟩
              rw [← splitOnce_eq hthird, ← splitOnce_eq hsecond, ← splitOnce_eq hfirst]
              exact hplain.2
      · cases h
    · cases h
  · cases h

theorem mem_bare {c : Char} (hc : c ∈ host) (hopen : c ≠ '[') (hclose : c ≠ ']') : c ∈ bare host := by
  unfold bare
  split
  · rename_i inner
    have hin : c ∈ inner := (List.mem_cons.mp hc).resolve_left hopen
    split
    · rename_i hlast
      obtain ⟨front, rfl⟩ := List.getLast?_eq_some_iff.mp hlast
      rw [List.dropLast_concat]
      rcases List.mem_append.mp hin with hin | hin
      · exact hin
      · exact absurd (List.mem_singleton.mp hin) hclose
    · exact hc
  · exact hc

theorem bare_of_head (h : host.head? ≠ some '[') : bare host = host := by
  unfold bare
  split
  · exact absurd rfl h
  · rfl

end Parts

section Reading

variable {r : Record} {line : Text} {p : ParsedProxy}

/-- The login of a record, if it has one. -/
def Record.login (r : Record) : Option Text := if r.user = [] then none else some r.user

/-- Its password is written with a login only. -/
def Record.secret (r : Record) : Option Text := if r.user = [] then none else some r.pass

theorem proxyLine_ok : proxyLine r = .ok line ↔ Named r ∧
    line = format r.kindName (trimText r.host) (showInt r.port) r.login r.secret := by
  unfold proxyLine
  dsimp only
  constructor
  · intro h
    split at h
    · cases h
    rename_i haddress
    split at h
    · cases h
    rename_i hkind
    split at h
    · cases h
    rename_i hcolon
    rw [not_or] at haddress
    refine ⟨⟨haddress.1, haddress.2, not_not.mp hkind, hcolon⟩, ?_⟩
    cases h
    unfold format Record.login Record.secret
    split
    · simp [withLogin, hostPort, showInt_natCast]
    · simp [withLogin, hostPort, showInt_natCast]
  · rintro ⟨⟨hhost, hport, hkind, hcolon⟩, rfl⟩
    rw [if_neg (not_or.mpr ⟨hhost, hport⟩), if_neg (not_not.mpr hkind), if_neg hcolon]
    unfold format Record.login Record.secret
    split
    · simp [withLogin, hostPort, showInt_natCast]
    · simp [withLogin, hostPort, showInt_natCast]

theorem parseLine_written (hkind : r.kindName ∈ writtenKinds) :
    parseLine (format r.kindName (trimText r.host) (showInt r.port) r.login r.secret) = .ok p ↔
      parseUrl r.kindName
        (withLogin r.login r.secret (hostPort (trimText r.host) (showInt r.port))) = .ok p := by
  have hall : ∀ kind ∈ writtenKinds, (':' ∉ kind ∧ kind ≠ []) ∧
      kind.all (isWhiteSpace · = false) = true := by
    decide
  obtain ⟨⟨hcolon, hne⟩, hsolid⟩ := hall _ hkind
  exact parseLine_formatted hcolon hne (forall_mem_of_all hsolid)

theorem normaliseScheme_written {scheme : Text} (hkind : r.kindName ∈ writtenKinds) :
    normaliseScheme r.kindName = .ok scheme ↔
      r.kindName ≠ "socks4".toList ∧ scheme = r.kindName := by
  simp only [writtenKinds, List.mem_cons, List.not_mem_nil, or_false] at hkind
  rcases hkind with hkind | hkind | hkind | hkind
  · rw [hkind]
    have hread : normaliseScheme "http".toList = .ok "http".toList := rfl
    rw [hread, Except.ok.injEq]
    exact ⟨fun h => ⟨by decide, h.symm⟩, fun h => h.2.symm⟩
  · rw [hkind]
    have hread : normaliseScheme "https".toList = .ok "https".toList := rfl
    rw [hread, Except.ok.injEq]
    exact ⟨fun h => ⟨by decide, h.symm⟩, fun h => h.2.symm⟩
  · rw [hkind]
    have hread : normaliseScheme "socks5".toList = .ok "socks5".toList := rfl
    rw [hread, Except.ok.injEq]
    exact ⟨fun h => ⟨by decide, h.symm⟩, fun h => h.2.symm⟩
  · rw [hkind]
    have hread : normaliseScheme "socks4".toList = .error .socks4 := rfl
    rw [hread]
    exact ⟨nofun, fun h => absurd rfl h.1⟩

theorem login_paired (r : Record) : r.login.isSome = r.secret.isSome := by
  unfold Record.login Record.secret
  split
  · rfl
  · rfl

theorem mem_login {user : Text} (h : user ∈ r.login) : user = r.user ∧ r.user ≠ [] := by
  unfold Record.login at h
  split at h
  · cases h
  · rename_i hne
    exact ⟨(Option.some.inj h).symm, hne⟩

/-- Four fields are read only where there is no login and no at sign. -/
theorem supplierFields_login {endpoint : Text} {parts : Text × Text × Text × Text}
    (h : supplierFields (withLogin r.login r.secret endpoint) = some parts) :
    r.user = [] ∧ supplierFields endpoint = some parts := by
  by_cases huser : r.user = []
  · refine ⟨huser, ?_⟩
    have hlogin : r.login = none := if_pos huser
    rw [hlogin] at h
    exact h
  · have hlogin : r.login = some r.user := if_neg huser
    have hsecret : r.secret = some r.pass := if_neg huser
    rw [hlogin, hsecret, supplierFields_at (by simp [withLogin])] at h
    cases h

/-- A host with an at sign is not read back. -/
theorem host_at {kind hostport host : Text} {username password : Option Text} {m : ℕ}
    (hauth : splitAtSign (withLogin r.login r.secret (hostPort (trimText r.host) (showInt r.port))) =
      .ok (username, password, hostport))
    (hhost : splitHostPort hostport = .ok (host, m))
    (hsame : Same r ⟨kind, host, m, username, password, .url⟩) : '@' ∉ trimText r.host := by
  intro hin
  have hbare : '@' ∈ bare (trimText r.host) := mem_bare hin (by decide) (by decide)
  have hread : '@' ∈ hostport := mem_splitHostPort hhost (by
    have heq : host = bare (trimText r.host) := hsame.host
    rw [heq]
    exact hbare)
  have hwhole : '@' ∈ withLogin r.login r.secret (hostPort (trimText r.host) (showInt r.port)) := by
    have hend : '@' ∈ hostPort (trimText r.host) (showInt r.port) := List.mem_append_left _ hin
    unfold withLogin
    split
    · exact List.mem_append_right _ (List.mem_cons_of_mem _ hend)
    · exact hend
  unfold splitAtSign at hauth
  cases hsplit : rsplitOnce '@' (withLogin r.login r.secret
      (hostPort (trimText r.host) (showInt r.port))) with
  | none => exact rsplitOnce_none hsplit hwhole
  | some parts =>
    obtain ⟨auth, endpoint⟩ := parts
    rw [hsplit] at hauth
    dsimp only at hauth
    obtain ⟨⟨user, pass⟩, -, hauth⟩ := bind_eq_ok.mp hauth
    dsimp only at hauth
    split at hauth
    · cases hauth
    · cases hauth
      exact rsplitOnce_free hsplit hread

/-- The host and the port of a line are read back. -/
theorem splitHostPort_written {host : Text} {m : ℕ} (hhost : trimText r.host ≠ [])
    (hport : r.port ≠ 0) :
    splitHostPort (hostPort (trimText r.host) (showInt r.port)) = .ok (host, m) ↔
      Bracketed (trimText r.host) ∧ host = bare (trimText r.host) ∧ m = r.port ∧ r.port ≤ 65535 := by
  have hnumber : parsePort (showInt r.port) = .ok m ↔ m = r.port ∧ r.port ≤ 65535 := by
    rw [parsePort_showInt]
    omega
  by_cases hhead : (trimText r.host).head? = some '['
  · obtain ⟨inner, hinner⟩ : ∃ inner, trimText r.host = '[' :: inner :=
      ⟨_, List.eq_cons_of_mem_head? hhead⟩
    rw [hinner, splitHostPort_bracket, hnumber]
    constructor
    · rintro ⟨rfl, hfree, hport⟩
      refine ⟨?_, ?_, hport⟩
      · rintro inner' heq
        cases heq
        exact ⟨host, rfl, hfree⟩
      · rw [bare, if_pos List.getLast?_concat, List.dropLast_concat]
    · rintro ⟨hclosed, rfl, hport⟩
      obtain ⟨name, rfl, hfree⟩ := hclosed inner rfl
      rw [bare, if_pos List.getLast?_concat, List.dropLast_concat]
      exact ⟨rfl, hfree, hport⟩
  · rw [bare_of_head hhead]
    constructor
    · intro h
      have heq : host = trimText r.host := by
        rcases splitHostPort_ok.mp h with ⟨inner, after, field, hbracket, -⟩ | ⟨-, field, hsplit, -⟩
        · have hwhole := stripStart_eq hbracket
          cases hcases : trimText r.host with
          | nil => exact absurd hcases hhost
          | cons c tail =>
            rw [hcases] at hwhole hhead
            exact absurd (congrArg some (List.cons.inj hwhole).1) hhead
        · rw [rsplitOnce_hostPort] at hsplit
          cases hsplit
          rfl
      rw [heq] at h
      obtain ⟨-, -, hread⟩ := splitHostPort_hostPort.mp h
      refine ⟨?_, heq, by omega, by omega⟩
      intro inner hinner
      rw [hinner] at hhead
      exact absurd rfl hhead
    · rintro ⟨-, rfl, rfl, hle⟩
      exact splitHostPort_hostPort.mpr ⟨hhost, hhead, rfl, hle, hport⟩

/-- The proxy of a record is read of its line exactly if its parts can be told apart there. -/
theorem carried_iff_distinct (r : Record) : Carried r ↔ (Named r → Distinct r) := by
  have hlogin := login_paired r
  constructor
  · intro h hnamed
    obtain ⟨p, hread, hsame⟩ := h _ (proxyLine_ok.mpr ⟨hnamed, rfl⟩)
    rw [parseLine_written hnamed.kind, parseUrl_ok] at hread
    obtain ⟨scheme, hscheme, ⟨host, field, user, pass, port, hfields, hport, rfl⟩ |
      ⟨hfields, username, password, hostport, host, port, hauth, hhost, rfl⟩⟩ := hread
    · -- the first of four fields is no host with a colon in it
      obtain ⟨-, hfields⟩ := supplierFields_login hfields
      obtain ⟨hwhole, hfree, hhead⟩ := supplierFields_eq hfields
      have hplain : (trimText r.host).head? ≠ some '[' := by
        rwa [hostPort, List.head?_append_of_ne_nil _ hnamed.host] at hhead
      have heq : host = trimText r.host := by
        have hbare : host = bare (trimText r.host) := hsame.host
        rwa [bare_of_head hplain] at hbare
      rw [hostPort, ← heq] at hwhole
      have hport := (List.cons.inj (List.append_cancel_left hwhole)).2
      have hcolon : ':' ∈ showInt r.port := by
        rw [hport]
        simp
      exact absurd hcolon (notMem_showInt (by decide) (by decide))
    · have hat := host_at hauth hhost hsame
      rw [splitAtSign_withLogin (notMem_hostPort hat) hlogin fun user huser =>
        (mem_login huser).1 ▸ hnamed.user] at hauth
      split at hauth
      · cases hauth
      cases hauth
      obtain ⟨hbracketed, -, -, hle⟩ := (splitHostPort_written hnamed.host hnamed.port).mp hhost
      refine ⟨((normaliseScheme_written hnamed.kind).mp hscheme).1, hle, hat, hbracketed,
        fun huser => ?_⟩
      have hnone : r.login = none := if_pos huser
      have hsecret : r.secret = none := if_pos huser
      have hpass : r.secret.getD [] = r.pass := hsame.pass
      rw [hsecret] at hpass
      rw [hnone] at hfields
      exact ⟨hpass.symm, hfields⟩
  · rintro h line hline
    obtain ⟨hnamed, rfl⟩ := proxyLine_ok.mp hline
    obtain ⟨hkind, hle, hat, hbracketed, hempty⟩ := h hnamed
    refine ⟨⟨r.kindName, bare (trimText r.host), r.port, r.login, r.secret, .url⟩, ?_, rfl, rfl, rfl,
      ?_, ?_⟩
    · rw [parseLine_written hnamed.kind, parseUrl_ok]
      refine ⟨r.kindName, (normaliseScheme_written hnamed.kind).mpr ⟨hkind, rfl⟩, .inr ⟨?_, r.login,
        r.secret, hostPort (trimText r.host) (showInt r.port), _, _, ?_, ?_, rfl⟩⟩
      · refine Option.eq_none_iff_forall_ne_some.mpr fun parts hparts => ?_
        obtain ⟨huser, hfields⟩ := supplierFields_login hparts
        rw [(hempty huser).2] at hfields
        cases hfields
      · rw [splitAtSign_withLogin (notMem_hostPort hat) hlogin fun user huser =>
          (mem_login huser).1 ▸ hnamed.user, if_neg]
        intro hnil
        obtain ⟨heq, hne⟩ := mem_login (show [] ∈ r.login from hnil)
        exact hne heq.symm
      · exact (splitHostPort_written hnamed.host hnamed.port).mpr ⟨hbracketed, rfl, rfl, hle⟩
    · change r.login.getD [] = r.user
      unfold Record.login
      split
      · rename_i huser
        exact huser.symm
      · rfl
    · change r.secret.getD [] = r.pass
      unfold Record.secret
      split
      · rename_i huser
        exact (hempty huser).1.symm
      · rfl

/-- An address whose second group is a number, without a login, is read as four fields. -/
theorem address_cut : ¬ ∀ r : Record, Carried r := by
  intro h
  have hcarried := h ⟨"http".toList, "2001:470::1".toList, 8080, [], []⟩
  obtain ⟨p, hread, hsame⟩ := hcarried "http://2001:470::1:8080".toList (by decide +kernel)
  have hother : parseLine "http://2001:470::1:8080".toList = .ok ⟨"http".toList, "2001".toList, 470,
      some [], some "1:8080".toList, .url⟩ := by decide +kernel
  rw [hother] at hread
  cases hread
  exact absurd hsame.port (by decide)

end Reading

end FuryBrowser.VendorProxies
