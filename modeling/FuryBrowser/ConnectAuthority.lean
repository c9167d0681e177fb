import FuryBrowser.SocksEncoding
import FuryBrowser.TextCuts
import FuryBrowser.TextReading

/-!
# The authority an HTTP proxy is asked for

A client asks for a target with a port. The relay takes its host and its port apart, looks the host
up in the lists, and asks its own proxy for the two together. A proxy reads the same target of a
name or of an address of four numbers; the brackets of a longer address are lost on the way.
-/

namespace FuryBrowser.ProfileRelay

open AgentDisk TextBytes TextLines TextCuts IpAddress DomainLists RelayStreams ProgramRules

section Authorities

/-- A character of a registered name. -/
def isNameMark (c : Char) : Bool := !(c ∈ ":/?#[]@".toList)

/-- A port in digits. -/
def readPort (text : Text) : Option ℕ := (decimalValue text).filter (· ≤ 65535)

/-- A longer address between brackets, and its port. -/
def readBracketed (rest : Text) : Option (Text × ℕ) := do
  let (literal, tail) ← splitOnce ']' rest
  let port ← stripStart [':'] tail
  let port ← readPort port
  match parseIp literal with
  | some (.v6 _) => some (literal, port)
  | _ => none

/-- A name or an address of four numbers, and its port. -/
def readNamed (text : Text) : Option (Text × ℕ) := do
  let (host, port) ← splitOnce ':' text
  let port ← readPort port
  if host ≠ [] && host.all isNameMark then some (host, port) else none

/-- The host and the port of an authority with a port: `host:port` or `[address]:port`. -/
def readAuthority (text : Text) : Option (Text × ℕ) :=
  match text with
  | '[' :: rest => readBracketed rest
  | _ => readNamed text

/-- What a proxy is asked for, by the first line of a request. -/
def askedFor (head : Text) : Option (Text × ℕ) :=
  (parseRequestLine head).bind fun (_, target) => readAuthority target

example : askedFor "CONNECT [2001:db8::1]:443 HTTP/1.1\r\n\r\n".toList =
    some ("2001:db8::1".toList, 443) := by
  decide

end Authorities

section Targets

variable {target host literal text rest : Text} {port : ℕ}

theorem readPort_spec (h : readPort text = some port) :
    decimalValue text = some port ∧ port ≤ 65535 := by
  obtain ⟨hvalue, hle⟩ := Option.filter_eq_some_iff.mp h
  exact ⟨hvalue, of_decide_eq_true hle⟩

theorem readPort_toDigits (h : port ≤ 65535) : readPort (Nat.toDigits 10 port) = some port :=
  Option.filter_eq_some_iff.mpr ⟨decimalValue_toDigits port, decide_eq_true h⟩

theorem readPort_colon (h : readPort text = some port) : ':' ∉ text := fun hin =>
  absurd ((decimalValue_digits (readPort_spec h).1).2 ':' hin) (by decide)

theorem readBracketed_spec (h : readBracketed rest = some (literal, port)) :
    (∃ p, rest = literal ++ ']' :: ':' :: p ∧ readPort p = some port) ∧ ']' ∉ literal ∧
      ':' ∈ literal := by
  obtain ⟨⟨inner, tail⟩, hsplit, h⟩ := Option.bind_eq_some_iff.mp h
  obtain ⟨p, hcolon, h⟩ := Option.bind_eq_some_iff.mp h
  obtain ⟨n, hport, h⟩ := Option.bind_eq_some_iff.mp h
  split at h
  · rename_i six hparse
    cases h
    refine ⟨⟨p, ?_, hport⟩, splitOnce_free hsplit, ?_⟩
    · rw [splitOnce_eq hsplit, stripStart_eq hcolon]
      rfl
    · by_contra hnone
      unfold parseIp at hparse
      split at hparse
      · split at hparse <;> cases hparse
      · rw [readIpv6_colon hnone] at hparse
        cases hparse
  · cases h

theorem readNamed_spec (h : readNamed text = some (host, port)) :
    (∃ p, text = host ++ ':' :: p ∧ readPort p = some port) ∧ host ≠ [] ∧
      host.all isNameMark = true := by
  obtain ⟨⟨name, p⟩, hsplit, h⟩ := Option.bind_eq_some_iff.mp h
  obtain ⟨n, hport, h⟩ := Option.bind_eq_some_iff.mp h
  split at h
  · rename_i hboth
    cases h
    rw [Bool.and_eq_true] at hboth
    exact ⟨⟨p, splitOnce_eq hsplit, hport⟩, of_decide_eq_true hboth.1, hboth.2⟩
  · cases h

theorem notMem_of_isNameMark {c : Char} (h : host.all isNameMark = true)
    (hc : isNameMark c = false) : c ∉ host := by
  intro hin
  rw [List.all_eq_true.mp h c hin] at hc
  cases hc

theorem readAuthority_authority (hne : host ≠ []) (hall : host.all isNameMark = true)
    (hport : port ≤ 65535) : readAuthority (authority host port) = some (host, port) := by
  have hcolon := notMem_of_isNameMark (c := ':') hall (by decide)
  have hnamed : readNamed (authority host port) = some (host, port) := by
    rw [readNamed, authority, splitOnce_append hcolon]
    change (readPort _).bind _ = _
    rw [readPort_toDigits hport]
    exact if_pos (by rw [hall, decide_eq_true hne]; rfl)
  unfold readAuthority
  split
  · rename_i rest heq
    cases host with
    | nil => exact absurd rfl hne
    | cons c more =>
      have hbracket := notMem_of_isNameMark (c := '[') hall (by decide)
      have hc : c = '[' := (List.cons.inj heq).1
      exact absurd (hc ▸ List.mem_cons_self) hbracket
  · exact hnamed

/-- An address with colons and a port, without brackets, are not. -/
theorem readAuthority_bare (hcolon : ':' ∈ literal) (hbracket : ']' ∉ literal) :
    readAuthority (authority literal port) ≠ some (literal, port) := by
  intro h
  unfold readAuthority at h
  split at h
  · rename_i rest heq
    obtain ⟨⟨p, hrest, -⟩, -, -⟩ := readBracketed_spec h
    have hin : ']' ∈ authority literal port := by
      rw [heq, hrest]
      simp
    rcases List.mem_append.mp hin with hliteral | hdigits
    · exact hbracket hliteral
    · rcases List.mem_cons.mp hdigits with hsame | hdigit
      · exact absurd hsame (by decide)
      · exact absurd (digits_of_toDigits hdigit) (by decide)
  · obtain ⟨-, -, hall⟩ := readNamed_spec h
    exact notMem_of_isNameMark hall (by decide) hcolon

/-- The relay takes a target apart as it is written. -/
theorem splitHostPort_eq (h : readAuthority target = some (host, port)) (default : ℕ) :
    splitHostPort target default = some (host, port) := by
  unfold readAuthority at h
  split at h
  · rename_i rest
    obtain ⟨⟨p, rfl, hport⟩, hbracket, -⟩ := readBracketed_spec h
    obtain ⟨hvalue, hle⟩ := readPort_spec hport
    have htail : stripStart [':'] (':' :: p) = some p := stripStart_append [':'] p
    unfold splitHostPort
    rw [show '[' :: (host ++ ']' :: ':' :: p) = ['['] ++ (host ++ ']' :: ':' :: p) from rfl,
      stripStart_append]
    dsimp only
    rw [splitOnce_append hbracket, Option.map_some, htail, Option.bind_some,
      parseUnsigned_digits hvalue hle]
    rfl
  · rename_i hnot
    obtain ⟨⟨p, rfl, hport⟩, hne, -⟩ := readNamed_spec h
    obtain ⟨hvalue, hle⟩ := readPort_spec hport
    have hnone : stripStart ['['] (host ++ ':' :: p) = none := by
      unfold stripStart
      split
      · rename_i hstart
        obtain ⟨more, hmore⟩ := List.isPrefixOf_iff_prefix.mp hstart
        exact absurd hmore.symm (hnot more)
      · rfl
    unfold splitHostPort
    rw [hnone, rsplitOnce_append (readPort_colon hport)]
    dsimp only
    rw [if_neg hne, parseUnsigned_digits hvalue hle]
    rfl

end Targets

section Requests

variable {head target host : Text} {port : ℕ}

/-- The line that asks for an authority is read as it was written. -/
theorem askedFor_connectRequest (hsolid : ∀ c ∈ host, isWhiteSpace c = false) (port : ℕ)
    (auth : Option Credentials) :
    askedFor (connectRequest host port auth) = readAuthority (authority host port) := by
  have hword : ∀ c ∈ authority host port, isWhiteSpace c = false := by
    intro c hc
    rcases List.mem_append.mp hc with hhost | hrest
    · exact hsolid c hhost
    · rcases List.mem_cons.mp hrest with rfl | hdigit
      · decide
      · exact isWhiteSpace_of_isDigit (digits_of_toDigits hdigit)
  have hne : authority host port ≠ [] := by simp [authority]
  obtain ⟨rest, hrest⟩ : ∃ rest, connectRequest host port auth =
      ("CONNECT".toList ++ ' ' :: (authority host port ++ ' ' :: "HTTP/1.1".toList)) ++
        (newline ++ rest) := by
    have hparts (a b c d rest : Text) :
        a ++ [' '] ++ (b ++ ((' ' :: (c ++ (newline ++ d))) ++ rest)) =
          (a ++ ' ' :: (b ++ ' ' :: c)) ++ (newline ++ (d ++ rest)) := by
      simp
    unfold connectRequest
    simp only [List.append_assoc]
    exact ⟨_, hparts "CONNECT".toList (authority host port) "HTTP/1.1".toList "Host: ".toList _⟩
  have hline : '\n' ∉ "CONNECT".toList ++ ' ' :: (authority host port ++
      ' ' :: "HTTP/1.1".toList) := by
    intro hin
    simp only [List.mem_append, List.mem_cons] at hin
    rcases hin with hmethod | hsame | htarget | hsame | hversion
    · exact absurd hmethod (by decide)
    · exact absurd hsame (by decide)
    · have hfalse := hword '\n' htarget
      exact absurd hfalse (by decide)
    · exact absurd hsame (by decide)
    · exact absurd hversion (by decide)
  have hwords : words ("CONNECT".toList ++ ' ' :: (authority host port ++
      ' ' :: "HTTP/1.1".toList)) = ["CONNECT".toList, authority host port,
        "HTTP/1.1".toList] := by
    rw [words_cons (forall_mem_of_all (by decide)) (by decide) (by decide),
      words_cons hword hne (by decide), words_last (forall_mem_of_all (by decide)) (by decide)]
  rw [askedFor, parseRequestLine, hrest, ← List.append_assoc, lines_cons hline, List.head?_cons,
    Option.map_some, hwords]
  rfl

/-- What the relay makes of a request to connect. -/
structure Preserved (head target host : Text) (port : ℕ) : Prop where
  /-- The lists are asked about the host, and it is what is reached. -/
  checked : ∀ relay : Relay, relay.verdict "CONNECT".toList target head =
    if relay.blocked.blocks host then .blocked
    else if !relay.blocked.reachedLocally host && !relay.allowLocal && isLocalTarget host then
      .notHere
    else .reach host port (relay.blocked.reachedLocally host)
  /-- An HTTP proxy reads of the relay what the client asked for. -/
  asked : ∀ (relay : Relay) (h : Text) (p : ℕ) (isLocal : Bool) (auth : Option Credentials)
    (s : Stream), relay.verdict "CONNECT".toList target head = .reach h p isLocal →
      s.faults = [] → askedFor (fromUtf8Lossy
        ((leaves (httpConnect h p auth) s).written.drop s.written.length)) = some (host, port)

theorem readRequestHead_speaks : Speaks readRequestHead [] := by
  have hloop (turns : ℕ) (buf : Bytes) : Speaks (readHeadUpTo turns buf) [] := by
    induction turns generalizing buf with
    | zero => exact .throw
    | succ turns ih =>
      unfold readHeadUpTo
      refine (readBlock_speaks 1024).bind fun chunk => ?_
      dsimp only
      split
      · exact .throw_bind
      · cases hend : findHeadersEnd (buf ++ chunk) with
        | some pos => exact .pure
        | none =>
          by_cases hfull : headLimit < (buf ++ chunk).length
          · exact (if_pos hfull).symm ▸ .throw
          · exact (if_neg hfull).symm ▸ ih _
  exact hloop _ _

/-- Everything the relay asks an HTTP proxy is the request. -/
theorem httpConnect_speaks (host : Text) (port : ℕ) (auth : Option Credentials) :
    Speaks (httpConnect host port auth) (bytesOf (connectRequest host port auth)) := by
  unfold httpConnect
  refine (writeAll_speaks _).mapStop.bind fun _ => ?_
  refine readRequestHead_speaks.mapStop.bind fun answer => ?_
  dsimp only
  split
  · exact .pure
  · exact .throw

/-- When no write fails the proxy gets the whole request. -/
theorem httpConnect_sent (host : Text) (port : ℕ) (auth : Option Credentials) {s : Stream}
    (hfaults : s.faults = []) :
    (leaves (httpConnect host port auth) s).written.drop s.written.length =
      bytesOf (connectRequest host port auth) := by
  have hspeaks := httpConnect_speaks host port auth s
  cases hr : httpConnect host port auth s with
  | ok u t =>
    rw [hr] at hspeaks
    rw [leaves, hr]
    exact hspeaks.1 ▸ List.drop_left
  | error e t =>
    rw [hr] at hspeaks
    obtain ⟨more, hwritten, -, hwhole⟩ := hspeaks
    rw [leaves, hr]
    dsimp only
    rw [hwritten, hwhole hfaults, List.drop_left]

end Requests

section Preservation

variable {head target host : Text} {port : ℕ}

/-- The lists are asked about the host of the target. -/
theorem verdict_connect (htarget : readAuthority target = some (host, port)) (relay : Relay) :
    relay.verdict "CONNECT".toList target head =
      if relay.blocked.blocks host then .blocked
      else if !relay.blocked.reachedLocally host && !relay.allowLocal && isLocalTarget host then
        .notHere
      else .reach host port (relay.blocked.reachedLocally host) := by
  have hrequested : requested "CONNECT".toList target head = some (host, port) := by
    rw [requested, if_pos rfl]
    exact splitHostPort_eq htarget 443
  unfold Relay.verdict
  rw [if_pos rfl, hrequested]

theorem asked_of_reach (htarget : readAuthority target = some (host, port)) {relay : Relay}
    {h : Text} {p : ℕ} {isLocal : Bool}
    (hreach : relay.verdict "CONNECT".toList target head = .reach h p isLocal) :
    h = host ∧ p = port := by
  rw [verdict_connect htarget] at hreach
  split_ifs at hreach
  cases hreach
  exact ⟨rfl, rfl⟩

/-- A relay without lists, which may reach anything. -/
def openRelay : Relay :=
  ⟨.http "proxy.example".toList 8080 none, .empty, [], none, true, fun _ => []⟩

theorem openRelay_reaches (htarget : readAuthority target = some (host, port)) :
    openRelay.verdict "CONNECT".toList target head = .reach host port false := by
  have hblocks : openRelay.blocked.blocks host = false := rfl
  have hlocal : openRelay.blocked.reachedLocally host = false := rfl
  rw [verdict_connect htarget, hblocks, hlocal, if_neg Bool.false_ne_true,
    if_neg (by rw [show openRelay.allowLocal = true from rfl]; exact Bool.false_ne_true)]

/-- A host between brackets is asked for without them. -/
theorem not_preserved_bracketed (rest : Text)
    (htarget : readAuthority ('[' :: rest) = some (host, port))
    (hsolid : ∀ c ∈ host, isWhiteSpace c = false) : ¬Preserved head ('[' :: rest) host port := by
  intro h
  have hasked := h.asked openRelay host port false none ⟨[], .closed, [], []⟩
    (openRelay_reaches htarget) rfl
  rw [httpConnect_sent host port none rfl, fromUtf8Lossy_bytesOf,
    askedFor_connectRequest hsolid] at hasked
  obtain ⟨-, hbracket, hcolon⟩ := readBracketed_spec htarget
  exact readAuthority_bare hcolon hbracket hasked

/-- What an HTTP proxy is asked for is what the client asked for exactly when the target is not
written between brackets. -/
theorem preserved_iff (hline : parseRequestLine head = some ("CONNECT".toList, target))
    (htarget : readAuthority target = some (host, port)) :
    Preserved head target host port ↔ target.head? ≠ some '[' := by
  have htext : ∀ c ∈ target, isWhiteSpace c = false := by
    obtain ⟨line, rest, hwords⟩ : ∃ line rest, words line = "CONNECT".toList :: target :: rest := by
      unfold parseRequestLine at hline
      split at hline
      · rename_i method target' rest hwords
        cases hline
        obtain ⟨line, -, hline⟩ := Option.map_eq_some_iff.mp hwords
        exact ⟨line, rest, hline⟩
      · cases hline
    exact words_free (hwords ▸ List.mem_cons_of_mem _ List.mem_cons_self)
  constructor
  · intro h hhead
    obtain ⟨rest, rfl⟩ : ∃ rest, target = '[' :: rest := by
      cases target with
      | nil => cases hhead
      | cons c rest => exact ⟨rest, by rw [Option.some.inj hhead]⟩
    obtain ⟨⟨p, rfl, -⟩, -⟩ := readBracketed_spec htarget
    exact not_preserved_bracketed _ htarget
      (fun c hc => htext c (List.mem_cons_of_mem _ (List.mem_append_left _ hc))) h
  · intro hhead
    have hnamed : readNamed target = some (host, port) := by
      unfold readAuthority at htarget
      split at htarget
      · exact absurd rfl hhead
      · exact htarget
    obtain ⟨⟨p, rfl, hport⟩, hne, hall⟩ := readNamed_spec hnamed
    refine ⟨verdict_connect htarget, fun relay h p isLocal auth s hreach hfaults => ?_⟩
    obtain ⟨rfl, rfl⟩ := asked_of_reach htarget hreach
    rw [httpConnect_sent h p auth hfaults, fromUtf8Lossy_bytesOf,
      askedFor_connectRequest fun c hc => htext c (List.mem_append_left _ hc)]
    exact readAuthority_authority hne hall (readPort_spec hport).2

theorem preserved_iff_name :
    Preserved "CONNECT site.example:443 HTTP/1.1\r\n\r\n".toList "site.example:443".toList
      "site.example".toList 443 ↔ "site.example:443".toList.head? ≠ some '[' :=
  preserved_iff (by decide) (by decide)

/-- An address of eight parts is asked for without its brackets. -/
theorem bracketed_lost :
    ¬∀ (head target host : Text) (port : ℕ),
      parseRequestLine head = some ("CONNECT".toList, target) →
      readAuthority target = some (host, port) → Preserved head target host port := by
  intro h
  have hall := h "CONNECT [2001:db8::1]:443 HTTP/1.1\r\n\r\n".toList "[2001:db8::1]:443".toList
    "2001:db8::1".toList 443 (by decide) (by decide)
  exact not_preserved_bracketed "2001:db8::1]:443".toList (by decide)
    (forall_mem_of_all (by decide)) hall

end Preservation

end FuryBrowser.ProfileRelay
