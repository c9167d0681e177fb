import FuryBrowser.RelayForward
import FuryBrowser.RelayLeaks

/-!
# The requests of one connection

A client may send more than one request on its connection. The relay takes the first one apart and
copies the rest, so what it does for the first is done for the others only where there is nothing
to do.
-/

namespace FuryBrowser.ProfileRelay

open AgentDisk TextBytes TextLines DomainLists RelayStreams ProgramRules

section Requests

/-- A line of a head: not empty, and without the bytes that end one. -/
def Proper (line : Bytes) : Prop := line ≠ [] ∧ 13 ∉ line ∧ 10 ∉ line

/-- A request as a client sends it. -/
structure Request where
  line : Bytes
  headers : List Bytes
  /-- What comes after the blank line. -/
  body : Bytes
  proper : ∀ l ∈ line :: headers, Proper l

/-- Its head. -/
def Request.head (r : Request) : Bytes := (r.line :: r.headers).flatMap (· ++ crlf) ++ crlf

/-- Its bytes. -/
def Request.bytes (r : Request) : Bytes := r.head ++ r.body

/-- Its head as the relay reads one. -/
def Request.text (r : Request) : Text := fromUtf8Lossy r.head

/-- The host and the port it is for. -/
def Request.host (r : Request) : Option (Text × ℕ) :=
  (parseRequestLine r.text).bind fun (method, target) => requested method target r.text

/-- The target as the relay reads one. -/
def Request.target (r : Request) : Text := ((words (fromUtf8Lossy r.line))[1]?).getD "/".toList

/-- A byte of a scheme. -/
def isSchemeByte (b : UInt8) : Bool :=
  (48 ≤ b && b ≤ 57) || (65 ≤ b && b ≤ 90) || (97 ≤ b && b ≤ 122) || b = 43 || b = 45 || b = 46

/-- A target with a scheme. -/
def isAbsolute (target : Bytes) : Bool :=
  let scheme := target.takeWhile isSchemeByte
  scheme ≠ [] && (utf8 "://").isPrefixOf (target.drop scheme.length)

/-- A request line whose target has one. -/
def isAbsoluteForm (line : Bytes) : Bool := isAbsolute (((line.splitOnP (· = 32))[1]?).getD [])

/-- The first line of some bytes. -/
def requestLine (bytes : Bytes) : Bytes := (crlfLines bytes).headD []

/-- What reaches the far side when this is what the client sends. -/
def Relay.reaches (relay : Relay) (net : Net) (ending : Ending) (pieces : List Bytes) : Bytes :=
  (leaves relay.handleClient
    ⟨⟨pieces, ending, [], []⟩, ⟨[], .silent, [], []⟩, net, none⟩).upstream.written

/-- What reached the far side for a request is as it should be. -/
structure Treated (relay : Relay) (r : Request) (share : Bytes) : Prop where
  /-- For a host that the lists refuse it is nothing. -/
  checked : ∀ host port, r.host = some (host, port) → relay.blocked.blocks host = true → share = []
  /-- It has no header that is for a proxy. -/
  noProxyHeader : ∀ h ∈ headerLines share, isProxyHeader h = false
  /-- Without a proxy, its target has no scheme. -/
  originForm : relay.upstream = .direct → isAbsoluteForm (requestLine share) = false

/-- Every request of a connection is treated so, however they are cut: what reaches the far side
when it was sent as well is what did before, and a share of its own. -/
def KeptAlive (relay : Relay) (net : Net) (ending : Ending) (requests : List Request) : Prop :=
  ∀ before r after, requests = before ++ r :: after → ∀ pieces pieces' : List Bytes,
    pieces.flatten = before.flatMap Request.bytes →
    pieces'.flatten = (before ++ [r]).flatMap Request.bytes →
    ∃ share, relay.reaches net ending pieces' = relay.reaches net ending pieces ++ share ∧
      Treated relay r share

/-- The connection that a first request is given, where the lists let it through and one is made. -/
def Relay.connection (relay : Relay) (net : Net) (first : Request) : Option Stream :=
  match parseRequestLine first.text with
  | none => none
  | some (method, target) =>
    match relay.verdict method target first.text with
    | .reach host port isLocal =>
      match relay.connect host port isLocal net with
      | .ok s _ => some s
      | .error _ _ => none
    | _ => none

/-- A first request that is not for a tunnel, and is not disturbed. -/
structure Plain (relay : Relay) (net : Net) (first : Request) : Prop where
  /-- Its head is read, however it is cut. -/
  size : first.head.length ≤ headLimit
  method : ∀ line ∈ parseRequestLine first.text, line.1 ≠ "CONNECT".toList
  /-- Its connection takes what is written to it. -/
  takes : ∀ s ∈ relay.connection net first, s.faults = []

/-- A first request in which the relay leaves nothing it should not: every header for a proxy is one
of those it leaves out, and the scheme of the target is one it takes away. -/
structure FirstClean (relay : Relay) (r : Request) : Prop where
  headers : ∀ h ∈ r.headers, isProxyHeader h = true → isStripped (fromUtf8Lossy h) = true
  target : relay.upstream = .direct → isAbsolute (bytesOf r.target) = true →
    "http".toList.isPrefixOf r.target = true

/-- A request for which there is nothing to do. -/
structure Clean (relay : Relay) (r : Request) : Prop where
  /-- The lists let its host through. -/
  host : ∀ host port, r.host = some (host, port) → relay.blocked.blocks host = false
  /-- It has no header for a proxy. -/
  headers : ∀ h ∈ r.headers, isProxyHeader h = false
  /-- Without a proxy, its target has no scheme. -/
  target : relay.upstream = .direct → isAbsoluteForm r.line = false

end Requests

section Heads

variable {line rest : Bytes} {r : Request}

theorem findHeadersEnd_skip (h : 13 ∉ line) :
    findHeadersEnd (line ++ rest) = (findHeadersEnd rest).map (· + line.length) := by
  induction line with
  | nil => simp
  | cons b line ih =>
    have hb : b ≠ 13 := fun heq => h (heq ▸ List.mem_cons_self)
    have hnot : ¬headEnd.isPrefixOf (b :: (line ++ rest)) = true := by
      intro hhere
      obtain ⟨more, hmore⟩ := List.isPrefixOf_iff_prefix.mp hhere
      exact hb (List.cons.inj hmore).1.symm
    rw [List.cons_append, findHeadersEnd, if_neg hnot,
      ih fun hin => h (List.mem_cons_of_mem _ hin), Option.map_map]
    rfl

/-- Nor at its end, if another one follows. -/
theorem findHeadersEnd_crlf (h : rest.head? ≠ some 13) :
    findHeadersEnd (crlf ++ rest) = (findHeadersEnd rest).map (· + 2) := by
  have hfirst : ¬headEnd.isPrefixOf (13 :: 10 :: rest) = true := by
    intro hhere
    obtain ⟨more, hmore⟩ := List.isPrefixOf_iff_prefix.mp hhere
    refine h ?_
    rw [← (List.cons.inj (List.cons.inj hmore).2).2]
    rfl
  have hsecond : ¬headEnd.isPrefixOf (10 :: rest) = true := by
    intro hhere
    obtain ⟨more, hmore⟩ := List.isPrefixOf_iff_prefix.mp hhere
    exact absurd (List.cons.inj hmore).1 (by decide)
  change findHeadersEnd (13 :: 10 :: rest) = _
  rw [findHeadersEnd, if_neg hfirst, findHeadersEnd, if_neg hsecond, Option.map_map]
  rfl

/-- A head ends where its blank line does. -/
theorem findHeadersEnd_lines {all : List Bytes} (hne : all ≠ []) (h : ∀ l ∈ all, Proper l) :
    findHeadersEnd (all.flatMap (· ++ crlf) ++ crlf ++ rest) =
      some (all.flatMap (· ++ crlf) ++ crlf).length := by
  induction all with
  | nil => exact absurd rfl hne
  | cons l more ih =>
    obtain ⟨-, hreturn, -⟩ := h l List.mem_cons_self
    rw [List.flatMap_cons, List.append_assoc, List.append_assoc, List.append_assoc,
      findHeadersEnd_skip hreturn]
    cases more with
    | nil =>
      have hhere : headEnd.isPrefixOf (13 :: 10 :: 13 :: 10 :: rest) = true :=
        List.isPrefixOf_iff_prefix.mpr ⟨rest, rfl⟩
      change (findHeadersEnd (13 :: 10 :: 13 :: 10 :: rest)).map _ = _
      rw [findHeadersEnd, if_pos hhere]
      simp [crlf, Nat.add_comm]
    | cons l' more =>
      obtain ⟨hne', hreturn', -⟩ := h l' (by simp)
      have hhead : ((l' :: more).flatMap (· ++ crlf) ++ (crlf ++ rest)).head? ≠ some 13 := by
        cases l' with
        | nil => exact absurd rfl hne'
        | cons b l' =>
          intro heq
          rw [List.flatMap_cons] at heq
          obtain rfl := Option.some.inj heq
          exact hreturn' List.mem_cons_self
      rw [findHeadersEnd_crlf hhead, ← List.append_assoc,
        ih (by simp) fun l hl => h l (List.mem_cons_of_mem _ hl)]
      simp [crlf]
      omega

theorem Request.findHeadersEnd_head (r : Request) :
    findHeadersEnd (r.head ++ rest) = some r.head.length :=
  findHeadersEnd_lines (by simp) r.proper

/-- The lines of bytes that begin with a head. -/
theorem crlfLines_head_lines {headers : List Bytes} (h : ∀ l ∈ line :: headers, 13 ∉ l) :
    crlfLines ((line :: headers).flatMap (· ++ crlf) ++ crlf ++ rest) =
      line :: headers ++ [] :: crlfLines rest := by
  have hblank : crlfLines ([] ++ crlf ++ rest) = [] :: crlfLines rest := crlfLines_cons (by simp)
  rw [List.append_assoc, crlfLines_flatMap h, ← hblank, List.nil_append]

theorem headerLines_lines {headers : List Bytes} (h : ∀ l ∈ line :: headers, 13 ∉ l)
    (hne : ∀ l ∈ headers, l ≠ []) :
    headerLines ((line :: headers).flatMap (· ++ crlf) ++ crlf ++ rest) = headers := by
  rw [headerLines, crlfLines_head_lines h, List.cons_append, List.tail_cons,
    List.takeWhile_append_of_pos (by simpa using hne)]
  simp

theorem requestLine_lines {headers : List Bytes} (h : ∀ l ∈ line :: headers, 13 ∉ l) :
    requestLine ((line :: headers).flatMap (· ++ crlf) ++ crlf ++ rest) = line := by
  rw [requestLine, crlfLines_head_lines h]
  rfl

theorem Request.headerLines_bytes (r : Request) : headerLines r.bytes = r.headers :=
  headerLines_lines (fun l hl => (r.proper l hl).2.1)
    fun l hl => (r.proper l (List.mem_cons_of_mem _ hl)).1

theorem Request.requestLine_bytes (r : Request) : requestLine r.bytes = r.line :=
  requestLine_lines fun l hl => (r.proper l hl).2.1

end Heads

section Shares

variable {relay : Relay} {net : Net} {ending : Ending} {first r : Request} {rest : Bytes}

/-- A request that is let through is served up to the copying. -/
theorem serve_reach {head method target host : Text} (leftover : Bytes) {port : ℕ} {isLocal : Bool}
    {w : Session} {s : Stream} {net' : Net} (hline : parseRequestLine head = some (method, target))
    (hplain : method ≠ "CONNECT".toList)
    (hverdict : relay.verdict method target head = .reach host port isLocal)
    (hconnect : relay.connect host port isLocal w.net = .ok s net') (hfree : s.faults = []) :
    ∃ w', relay.serve head leftover w = .ok true w' := by
  have hreach : relay.reach host port isLocal w =
      .ok () { w with upstream := s, net := net' } := by
    simp only [Relay.reach, onNet, hconnect]
  have hgreet : ∃ w', greet method head leftover { w with upstream := s, net := net' } =
      .ok () w' := by
    unfold greet
    rw [if_neg hplain]
    by_cases hleft : leftover = []
    · rw [if_neg (by simpa using hleft)]
      exact ⟨_, run_bind_ok.mpr ⟨(), _, onUpstream_free hfree, run_pure_ok.mpr ⟨rfl, rfl⟩⟩⟩
    · rw [if_pos hleft]
      exact ⟨_, run_bind_ok.mpr ⟨(), _, onUpstream_free hfree, onUpstream_free hfree⟩⟩
  obtain ⟨w', hgreet⟩ := hgreet
  refine ⟨w', ?_⟩
  unfold Relay.serve
  rw [hline]
  dsimp only
  rw [hverdict]
  exact run_bind_ok.mpr ⟨(), _, hreach, run_bind_ok.mpr ⟨(), _, hgreet, run_pure_ok.mpr ⟨rfl, rfl⟩⟩⟩

theorem connection_some {s : Stream} : relay.connection net first = some s ↔
    ∃ method target host port isLocal net', parseRequestLine first.text = some (method, target) ∧
      relay.verdict method target first.text = .reach host port isLocal ∧
      relay.connect host port isLocal net = .ok s net' := by
  unfold Relay.connection
  constructor
  · intro h
    cases hline : parseRequestLine first.text with
    | none => simp [hline] at h
    | some line =>
      obtain ⟨method, target⟩ := line
      simp only [hline] at h
      cases hverdict : relay.verdict method target first.text with
      | reach host port isLocal =>
        simp only [hverdict] at h
        cases hconnect : relay.connect host port isLocal net with
        | ok s' net' =>
          simp only [hconnect, Option.some.injEq] at h
          subst h
          exact ⟨method, target, host, port, isLocal, net', rfl, hverdict, hconnect⟩
        | error e net' => simp [hconnect] at h
      | page route => simp [hverdict] at h
      | malformed => simp [hverdict] at h
      | blocked => simp [hverdict] at h
      | notHere => simp [hverdict] at h
  · rintro ⟨method, target, host, port, isLocal, net', hline, hverdict, hconnect⟩
    simp only [hline, hverdict, hconnect]

/-- The head of a first request is read, however it is cut. -/
theorem read_first (hsize : first.head.length ≤ headLimit) (ending : Ending) {pieces : List Bytes}
    (hpieces : pieces.flatten = first.head ++ rest) : ∃ leftover t,
      readRequestHead ⟨pieces, ending, [], []⟩ = .ok (first.text, leftover) t := by
  have hpos : findHeadersEnd pieces.flatten = some first.head.length := by
    rw [hpieces, first.findHeadersEnd_head]
  obtain ⟨head, leftover, t, hread⟩ := readRequestHead_total
    (s := ⟨pieces, ending, [], []⟩) hpos hsize
  obtain ⟨pos, hpos', hhead, -⟩ := readRequestHead_ok hread
  rw [hpos] at hpos'
  obtain rfl := Option.some.inj hpos'
  rw [hpieces, List.take_left] at hhead
  exact ⟨leftover, t, by rw [hread, hhead]; rfl⟩

/-- What reaches the far side: the first head put together again, and then everything as it was
sent, however it was cut. -/
theorem reaches_eq (hplain : Plain relay net first)
    (hthere : (relay.connection net first).isSome = true) {pieces : List Bytes}
    (hpieces : pieces.flatten = first.head ++ rest) :
    relay.reaches net ending pieces = bytesOf (stripProxyHeaders first.text) ++ rest := by
  obtain ⟨s, hs⟩ := Option.isSome_iff_exists.mp hthere
  obtain ⟨method, target, host, port, isLocal, net', hline, hverdict, hconnect⟩ :=
    connection_some.mp hs
  have hmethod : method ≠ "CONNECT".toList := hplain.method _ hline
  obtain ⟨leftover, t, hread⟩ := read_first hplain.size ending hpieces
  obtain ⟨w', hserve⟩ := serve_reach leftover (w := ⟨t, ⟨[], .silent, [], []⟩, net, none⟩)
    hline hmethod hverdict hconnect (hplain.takes s hs)
  have hforwards : relay.forwards ⟨⟨pieces, ending, [], []⟩, ⟨[], .silent, [], []⟩, net, none⟩ =
      true :=
    forwards_iff.mpr ⟨_, leftover, t, method, target, w', hread, hline, hmethod, hserve⟩
  obtain ⟨pos, hpos, hwritten⟩ := forwarded_written hforwards rfl
  dsimp only at hpos hwritten
  rw [hpieces, first.findHeadersEnd_head] at hpos
  obtain rfl := Option.some.inj hpos
  rw [Relay.reaches, hwritten, hpieces, List.take_left, List.drop_left]
  rfl

/-- Nothing reaches the far side for a first request that is given no connection, nor for what
follows it. -/
theorem reaches_unconnected (hsize : first.head.length ≤ headLimit)
    (hnone : relay.connection net first = none) {pieces : List Bytes}
    (hpieces : pieces.flatten = first.head ++ rest) : relay.reaches net ending pieces = [] := by
  obtain ⟨leftover, t, hread⟩ := read_first hsize ending hpieces
  unfold Relay.reaches
  have hrest : leaves relay.handleClient
      ⟨⟨pieces, ending, [], []⟩, ⟨[], .silent, [], []⟩, net, none⟩ =
      leaves (relay.proceed first.text leftover) ⟨t, ⟨[], .silent, [], []⟩, net, none⟩ := by
    rw [leaves, handleClient_ok hread, leaves]
  rw [hrest, proceed_unreached]
  intro method target host port isLocal s net' hline hverdict hconnect
  rw [connection_some.mpr ⟨method, target, host, port, isLocal, net', hline, hverdict, hconnect⟩]
    at hnone
  cases hnone

/-- Nothing reaches the far side before anything was sent. -/
theorem reaches_nil {pieces : List Bytes} (hpieces : pieces.flatten = []) :
    relay.reaches net ending pieces = [] := by
  unfold Relay.reaches leaves
  cases hread : readRequestHead ⟨pieces, ending, [], []⟩ with
  | ok result t =>
    obtain ⟨head, leftover⟩ := result
    obtain ⟨pos, hpos, -⟩ := readRequestHead_ok hread
    rw [hpieces] at hpos
    cases hpos
  | error e t => rw [handleClient_error hread]

/-- A plain text line and the bytes that end it. -/
theorem fromUtf8Lossy_crlf (line : Bytes) :
    fromUtf8Lossy (line ++ crlf ++ rest) = fromUtf8Lossy line ++ newline ++ fromUtf8Lossy rest := by
  have hsplit : fromUtf8Lossy (line ++ 13 :: (10 :: rest)) =
      fromUtf8Lossy line ++ .ofNat (13 : UInt8).toNat :: fromUtf8Lossy (10 :: rest) :=
    fromUtf8Lossy_append (by decide)
  have hreturn : Char.ofNat (13 : UInt8).toNat = '\r' := by decide
  have hfeed : Char.ofNat (10 : UInt8).toNat = '\n' := by decide
  rw [List.append_assoc]
  change fromUtf8Lossy (line ++ 13 :: (10 :: rest)) = _
  rw [hsplit, fromUtf8Lossy_low (by decide), hreturn, hfeed]
  simp [newline]

/-- The lines of a head are read as its lines' texts, and the blank one. -/
theorem lines_text (r : Request) :
    lines r.text = (r.line :: r.headers).map fromUtf8Lossy ++ [[]] := by
  have htext (all : List Bytes) : fromUtf8Lossy (all.flatMap (· ++ crlf) ++ crlf) =
      (all.map fromUtf8Lossy).flatMap (· ++ newline) ++ newline := by
    induction all with
    | nil => decide
    | cons l more ih =>
      rw [List.flatMap_cons, List.append_assoc, fromUtf8Lossy_crlf, ih, List.map_cons,
        List.flatMap_cons]
      simp only [List.append_assoc]
  have hlast : lines newline = [[]] := by decide
  rw [Request.text, Request.head, htext, lines_flatMap, hlast]
  intro l hl
  obtain ⟨bytes, hin, rfl⟩ := List.mem_map.mp hl
  obtain ⟨-, -, hfeed⟩ := r.proper bytes hin
  exact fun hc => hfeed (mem_of_mem_fromUtf8Lossy (by decide) hc)

end Shares

section FirstLine

variable {target : Text}

/-- A target that begins with a slash has no scheme. -/
theorem isAbsolute_slash (path : Text) : isAbsolute (bytesOf ('/' :: path)) = false := by
  have hslash : String.utf8EncodeChar '/' = [47] := by decide
  have hnone : ((47 : UInt8) :: bytesOf path).takeWhile isSchemeByte = [] := by
    rw [List.takeWhile_cons_of_neg (by decide)]
  rw [bytesOf_cons, hslash, List.singleton_append, isAbsolute, hnone]
  rfl

/-- The scheme of a target is taken away where it begins with the letters of the two that are
known. -/
theorem isAbsolute_originTarget : isAbsolute (bytesOf (originTarget target)) =
    (!"http".toList.isPrefixOf target && isAbsolute (bytesOf target)) := by
  have hslash : "/".toList = '/' :: [] := by decide
  unfold originTarget
  cases hscheme : (stripStart "http://".toList target).or (stripStart "https://".toList target) with
  | none =>
    rw [Option.bind_none, Option.getD_none]
    split
    · rename_i hhttp
      rw [hslash, isAbsolute_slash, hhttp]
      rfl
    · rename_i hhttp
      rw [Bool.eq_false_iff.mpr hhttp, Bool.not_false, Bool.true_and]
  | some rest =>
    have hhttp : "http".toList.isPrefixOf target = true := by
      rw [List.isPrefixOf_iff_prefix]
      rcases Option.or_eq_some_iff.mp hscheme with h | ⟨-, h⟩
      · rw [stripStart_eq h]
        exact ⟨"://".toList ++ rest, by simp⟩
      · rw [stripStart_eq h]
        exact ⟨"s://".toList ++ rest, by simp⟩
    rw [Option.bind_some, hhttp, Bool.not_true, Bool.false_and]
    cases hpath : fromSlash rest with
    | none => rw [Option.getD_none, if_pos rfl, hslash, isAbsolute_slash]
    | some path =>
      obtain ⟨p, -, rfl⟩ := Option.map_eq_some_iff.mp hpath
      exact isAbsolute_slash _

theorem free_of_all {text : Text} (h : text.all (fun c => !isWhiteSpace c) = true) :
    ∀ c ∈ text, isWhiteSpace c = false := by
  simpa using h

/-- A target in origin form has no white space that the target had not. -/
theorem originTarget_free (h : ∀ c ∈ target, isWhiteSpace c = false) :
    ∀ c ∈ originTarget target, isWhiteSpace c = false := by
  have hslash : ∀ c ∈ "/".toList, isWhiteSpace c = false := free_of_all (by decide)
  have hlast : ∀ c ∈ (if "http".toList.isPrefixOf target then "/".toList else target),
      isWhiteSpace c = false := by
    split
    · exact hslash
    · exact h
  unfold originTarget
  cases hpath : ((stripStart "http://".toList target).or
      (stripStart "https://".toList target)).bind fromSlash with
  | none => exact hlast
  | some path =>
    obtain ⟨rest, hscheme, hpath⟩ := Option.bind_eq_some_iff.mp hpath
    obtain ⟨⟨before, p⟩, hsplit, rfl⟩ := Option.map_eq_some_iff.mp hpath
    have hrest : ∀ c ∈ rest, c ∈ target := by
      intro c hc
      rcases Option.or_eq_some_iff.mp hscheme with h | ⟨-, h⟩
      · rw [stripStart_eq h]
        exact List.mem_append_right _ hc
      · rw [stripStart_eq h]
        exact List.mem_append_right _ hc
    intro c hc
    refine h c (hrest c ?_)
    rw [splitOnce_eq hsplit]
    exact List.mem_append_right _ hc

end FirstLine

section FirstShare

variable {relay : Relay} {first : Request}

/-- The parts the first line is put together of have no white space. -/
theorem originLine_parts (line : Text) : ∃ method version : Text,
    originLine line =
        method ++ ' ' :: originTarget (((words line)[1]?).getD "/".toList) ++ ' ' :: version ∧
      (∀ c ∈ method, isWhiteSpace c = false) ∧ (∀ c ∈ version, isWhiteSpace c = false) ∧
      ∀ c ∈ originTarget (((words line)[1]?).getD "/".toList), isWhiteSpace c = false := by
  have hpart (i : ℕ) (other : Text) (hother : ∀ c ∈ other, isWhiteSpace c = false) :
      ∀ c ∈ ((words line)[i]?).getD other, isWhiteSpace c = false := by
    cases hword : (words line)[i]? with
    | none => exact hother
    | some word => exact words_free (List.mem_of_getElem? hword)
  exact ⟨_, _, rfl, hpart 0 _ (free_of_all (by decide)), hpart 2 _ (free_of_all (by decide)),
    originTarget_free (hpart 1 _ (free_of_all (by decide)))⟩

/-- So it is a line, and its target is the one in origin form. -/
theorem originLine_proper (line : Text) : 13 ∉ bytesOf (originLine line) ∧
    isAbsoluteForm (bytesOf (originLine line)) =
      isAbsolute (bytesOf (originTarget (((words line)[1]?).getD "/".toList))) := by
  obtain ⟨method, version, hline, hmethod, hversion, htarget⟩ := originLine_parts line
  generalize originTarget (((words line)[1]?).getD "/".toList) = target at hline htarget ⊢
  have hnone (b : UInt8) (hb : b < 0x80) (hspace : isWhiteSpace (.ofNat b.toNat) = true)
      (text : Text) (h : ∀ c ∈ text, isWhiteSpace c = false) : b ∉ bytesOf text := by
    intro hin
    rw [h _ (mem_of_mem_bytesOf hb hin)] at hspace
    cases hspace
  have hblank : String.utf8EncodeChar ' ' = [32] := by decide
  have hbytes : bytesOf (originLine line) =
      bytesOf method ++ 32 :: (bytesOf target ++ 32 :: bytesOf version) := by
    rw [hline]
    simp [bytesOf_append, bytesOf_cons, hblank]
  have hsingle (text : Text) (h : ∀ c ∈ text, isWhiteSpace c = false) :
      (bytesOf text).splitOnP (· = 32) = [bytesOf text] := by
    refine List.splitOnP_eq_singleton fun b hb => ?_
    rw [decide_eq_false_iff_not]
    rintro rfl
    exact hnone 32 (by decide) (by decide) text h hb
  constructor
  · have hreturn := hnone 13 (by decide) (by decide)
    rw [hbytes]
    simp [hreturn method hmethod, hreturn target htarget, hreturn version hversion]
  · rw [isAbsoluteForm, hbytes, List.splitOnP_append_cons _ _ (by decide),
      List.splitOnP_append_cons _ _ (by decide), hsingle method hmethod, hsingle target htarget]
    rfl

/-- The header lines that are kept. -/
def Request.kept (r : Request) : List Bytes :=
  r.headers.filter fun h => !isStripped (fromUtf8Lossy h)

/-- The first head put together again: its line, the header lines that are kept, and two blank
lines. -/
theorem first_share (r : Request) : bytesOf (stripProxyHeaders r.text) ++ r.body =
    (bytesOf (originLine (fromUtf8Lossy r.line)) :: r.kept.map reread).flatMap (· ++ crlf) ++
      crlf ++ (crlf ++ r.body) := by
  have hline : bytesOf newline = crlf := by decide
  have hkept : ([[]] : List Text).filter (!isStripped ·) = [[]] := by decide
  have hlines (all : List Bytes) : bytesOf ((all.map fromUtf8Lossy).flatMap (· ++ newline)) =
      (all.map reread).flatMap (· ++ crlf) := by
    induction all with
    | nil => rfl
    | cons l more ih =>
      rw [List.map_cons, List.flatMap_cons, bytesOf_append, bytesOf_append, hline, ih]
      rfl
  have hfilter : (r.headers.map fromUtf8Lossy).filter (!isStripped ·) =
      r.kept.map fromUtf8Lossy := by
    rw [List.filter_map]
    rfl
  unfold stripProxyHeaders
  rw [lines_text, List.map_cons, List.cons_append]
  dsimp only
  rw [List.filter_append, hkept, hfilter, List.flatMap_append, List.flatMap_singleton,
    List.flatMap_cons, bytesOf_append, bytesOf_append, bytesOf_append, bytesOf_append, hlines,
    hline]
  simp only [List.nil_append, List.append_assoc, hline]

theorem first_lines (r : Request) :
    ∀ l ∈ bytesOf (originLine (fromUtf8Lossy r.line)) :: r.kept.map reread, 13 ∉ l := by
  intro l hl
  rcases List.mem_cons.mp hl with rfl | hl
  · exact (originLine_proper _).1
  · obtain ⟨h, hh, rfl⟩ := List.mem_map.mp hl
    have hproper := r.proper h (List.mem_cons_of_mem _ (List.mem_filter.mp hh).1)
    exact fun hin => hproper.2.1 (mem_of_mem_reread (by decide) hin)

/-- What is written for the first request has no header for a proxy but those the relay leaves in,
and its target is the one in origin form. -/
theorem first_share_lines (r : Request) :
    headerLines (bytesOf (stripProxyHeaders r.text) ++ r.body) = r.kept.map reread ∧
      requestLine (bytesOf (stripProxyHeaders r.text) ++ r.body) =
        bytesOf (originLine (fromUtf8Lossy r.line)) := by
  rw [first_share]
  refine ⟨headerLines_lines (first_lines r) fun l hl => ?_, requestLine_lines (first_lines r)⟩
  obtain ⟨h, hh, rfl⟩ := List.mem_map.mp hl
  exact reread_ne_nil (r.proper h (List.mem_cons_of_mem _ (List.mem_filter.mp hh).1)).1

theorem isProxyHeader_reread (h : Bytes) : isProxyHeader (reread h) = isProxyHeader h :=
  beginsWith_reread (by decide +kernel)

end FirstShare

section Connections

variable {relay : Relay} {net : Net} {ending : Ending} {first : Request} {later : List Request}

/-- What reaches the far side for the first request is as it should be exactly where it is clean. -/
theorem first_treated (hthere : (relay.connection net first).isSome = true) :
    Treated relay first (bytesOf (stripProxyHeaders first.text) ++ first.body) ↔
      FirstClean relay first := by
  obtain ⟨hheaders, hrequest⟩ := first_share_lines first
  have hform : isAbsoluteForm (bytesOf (originLine (fromUtf8Lossy first.line))) =
      (!"http".toList.isPrefixOf first.target && isAbsolute (bytesOf first.target)) := by
    rw [(originLine_proper _).2]
    exact isAbsolute_originTarget
  constructor
  · intro h
    refine ⟨fun l hl hproxy => ?_, fun hdirect habs => ?_⟩
    · cases hstripped : isStripped (fromUtf8Lossy l) with
      | true => rfl
      | false =>
        have hin : reread l ∈ headerLines
            (bytesOf (stripProxyHeaders first.text) ++ first.body) := by
          rw [hheaders]
          exact List.mem_map_of_mem (List.mem_filter.mpr ⟨hl, by simp [hstripped]⟩)
        have hnot := h.noProxyHeader _ hin
        rw [isProxyHeader_reread, hproxy] at hnot
        cases hnot
    · have hnot := h.originForm hdirect
      rw [hrequest, hform, habs, Bool.and_true, Bool.not_eq_false'] at hnot
      exact hnot
  · intro h
    refine ⟨fun host port hhost hblocks => ?_, fun l hl => ?_, fun hdirect => ?_⟩
    · obtain ⟨s, hs⟩ := Option.isSome_iff_exists.mp hthere
      obtain ⟨method, target, host', port', isLocal, net', hline, hverdict, -⟩ :=
        connection_some.mp hs
      obtain ⟨hrequested, hfree, -, -⟩ := verdict_reach hverdict
      have hfirst : first.host = some (host', port') := by
        rw [Request.host, hline]
        exact hrequested
      rw [hfirst] at hhost
      cases hhost
      rw [hfree] at hblocks
      cases hblocks
    · rw [hheaders] at hl
      obtain ⟨l', hl', rfl⟩ := List.mem_map.mp hl
      obtain ⟨hin, hkept⟩ := List.mem_filter.mp hl'
      rw [isProxyHeader_reread]
      cases hproxy : isProxyHeader l' with
      | false => rfl
      | true =>
        rw [h.headers l' hin hproxy] at hkept
        cases hkept
    · rw [hrequest, hform]
      cases habs : isAbsolute (bytesOf first.target) with
      | false => rw [Bool.and_false]
      | true => rw [h.target hdirect habs, Bool.not_true, Bool.false_and]

/-- What reaches the far side for a later request is all of it. -/
theorem later_treated (r : Request) : Treated relay r r.bytes ↔ Clean relay r := by
  have hne : r.bytes ≠ [] := by
    have hline := (r.proper r.line List.mem_cons_self).1
    simp [Request.bytes, Request.head, hline]
  constructor
  · intro h
    refine ⟨fun host port hhost => ?_, fun l hl => ?_, fun hdirect => ?_⟩
    · cases hblocks : relay.blocked.blocks host with
      | false => rfl
      | true => exact absurd (h.checked host port hhost hblocks) hne
    · exact h.noProxyHeader l (by rwa [r.headerLines_bytes])
    · rw [← r.requestLine_bytes]
      exact h.originForm hdirect
  · intro h
    refine ⟨fun host port hhost hblocks => ?_, fun l hl => ?_, fun hdirect => ?_⟩
    · rw [h.host host port hhost] at hblocks
      cases hblocks
    · rw [r.headerLines_bytes] at hl
      exact h.headers l hl
    · rw [r.requestLine_bytes]
      exact h.target hdirect

/-- What reaches the far side when the first request was sent, and some others. -/
theorem reaches_requests (hplain : Plain relay net first)
    (hthere : (relay.connection net first).isSome = true) (later : List Request)
    {pieces : List Bytes}
    (hpieces : pieces.flatten = (first :: later).flatMap Request.bytes) :
    relay.reaches net ending pieces =
      bytesOf (stripProxyHeaders first.text) ++ first.body ++ later.flatMap Request.bytes := by
  have hrest : pieces.flatten = first.head ++ (first.body ++ later.flatMap Request.bytes) := by
    rw [hpieces, List.flatMap_cons, Request.bytes, List.append_assoc]
  rw [reaches_eq hplain hthere hrest, List.append_assoc]

/-- A connection whose first request is clean, and whose later ones there is nothing to do for. -/
theorem keptAlive_of_clean (hplain : Plain relay net first)
    (hthere : (relay.connection net first).isSome = true) (hfirst : FirstClean relay first)
    (hlater : ∀ r ∈ later, Clean relay r) : KeptAlive relay net ending (first :: later) := by
  intro before r after heq pieces pieces' hpieces hpieces'
  cases before with
  | nil =>
    obtain ⟨rfl, -⟩ := List.cons.inj heq
    refine ⟨_, ?_, (first_treated hthere).mpr hfirst⟩
    rw [reaches_requests hplain hthere [] hpieces', reaches_nil hpieces, List.flatMap_nil,
      List.append_nil, List.nil_append]
  | cons f before =>
    obtain ⟨rfl, hrest⟩ := List.cons.inj heq
    have hr : r ∈ later := by
      rw [hrest]
      exact List.mem_append_right before List.mem_cons_self
    refine ⟨r.bytes, ?_, (later_treated r).mpr (hlater r hr)⟩
    rw [reaches_requests hplain hthere (before ++ [r]) hpieces',
      reaches_requests hplain hthere before hpieces, List.flatMap_append, List.flatMap_singleton,
      List.append_assoc _ _ r.bytes]

/-- One whose first request is given no connection. -/
theorem keptAlive_of_unconnected (hsize : first.head.length ≤ headLimit)
    (hnone : relay.connection net first = none) : KeptAlive relay net ending (first :: later) := by
  have hnothing (more : List Request) (pieces : List Bytes)
      (hpieces : pieces.flatten = (first :: more).flatMap Request.bytes) :
      relay.reaches net ending pieces = [] := by
    rw [List.flatMap_cons, Request.bytes, List.append_assoc] at hpieces
    exact reaches_unconnected hsize hnone hpieces
  intro before r after heq pieces pieces' hpieces hpieces'
  refine ⟨[], ?_, fun _ _ _ _ => rfl, fun _ h => (by cases h), fun _ => rfl⟩
  rw [List.append_nil]
  cases before with
  | nil =>
    obtain ⟨rfl, -⟩ := List.cons.inj heq
    rw [hnothing [] pieces' hpieces', reaches_nil hpieces]
  | cons f before =>
    obtain ⟨rfl, -⟩ := List.cons.inj heq
    rw [hnothing (before ++ [r]) pieces' hpieces', hnothing before pieces hpieces]

theorem firstClean_of_keptAlive (h : KeptAlive relay net ending (first :: later))
    (hplain : Plain relay net first) (hthere : (relay.connection net first).isSome = true) :
    FirstClean relay first := by
  obtain ⟨share, hshare, htreated⟩ := h [] first later rfl [] [first.bytes] rfl (by simp)
  rw [reaches_requests hplain hthere [] (by simp), reaches_nil rfl, List.nil_append,
    List.flatMap_nil, List.append_nil] at hshare
  rw [← hshare] at htreated
  exact (first_treated hthere).mp htreated

theorem clean_of_keptAlive (h : KeptAlive relay net ending (first :: later))
    (hplain : Plain relay net first) (hthere : (relay.connection net first).isSome = true)
    {r : Request} (hr : r ∈ later) : Clean relay r := by
  obtain ⟨before, after, rfl⟩ := List.append_of_mem hr
  obtain ⟨share, hshare, htreated⟩ := h (first :: before) r after rfl
    [(first :: before).flatMap Request.bytes] [(first :: before ++ [r]).flatMap Request.bytes]
    (by simp) (by simp)
  rw [reaches_requests hplain hthere (before ++ [r]) (by simp),
    reaches_requests hplain hthere before (by simp), List.flatMap_append,
    List.flatMap_singleton, ← List.append_assoc] at hshare
  rw [← List.append_cancel_left hshare] at htreated
  exact (later_treated r).mp htreated

/-- Every request of a connection is treated like the first exactly where the relay leaves nothing
in the first and there is nothing to do for the others, unless the first is given no connection. -/
theorem kept_alive_iff (hplain : Plain relay net first) :
    KeptAlive relay net ending (first :: later) ↔
      ((relay.connection net first).isSome = true →
        FirstClean relay first ∧ ∀ r ∈ later, Clean relay r) := by
  constructor
  · intro h hthere
    exact ⟨firstClean_of_keptAlive h hplain hthere,
      fun _ hr => clean_of_keptAlive h hplain hthere hr⟩
  · intro h
    cases hconnection : relay.connection net first with
    | none => exact keptAlive_of_unconnected hplain.size hconnection
    | some s =>
      have hthere : (relay.connection net first).isSome = true := by rw [hconnection]; rfl
      obtain ⟨hfirst, hlater⟩ := h hthere
      exact keptAlive_of_clean hplain hthere hfirst hlater

end Connections

section Second

/-- A request for the address that takes the connection. -/
def plainRequest : Request where
  line := utf8 "GET http://93.184.216.34/ HTTP/1.1"
  headers := [utf8 "Host: 93.184.216.34"]
  body := []
  proper := by
    unfold Proper
    decide

/-- A request for a host on a blocklist. -/
def trackerRequest : Request where
  line := utf8 "GET http://ads.example/ HTTP/1.1"
  headers := [utf8 "Host: ads.example", utf8 "Proxy-Authorization: Basic eA=="]
  body := []
  proper := by
    unfold Proper
    decide

/-- A relay without a proxy, for a profile that refuses the host. -/
def trackerRelay : Relay := { directRelay with blocked := ⟨["ads.example".toList], none, [], []⟩ }

theorem plainRequest_plain : Plain trackerRelay formSession.net plainRequest where
  size := by decide
  method := by decide
  takes := by decide

theorem kept_alive_plain :
    KeptAlive trackerRelay formSession.net .closed [plainRequest] ↔
      ((trackerRelay.connection formSession.net plainRequest).isSome = true →
        FirstClean trackerRelay plainRequest ∧ ∀ r ∈ [], Clean trackerRelay r) :=
  kept_alive_iff plainRequest_plain

/-- The second request is for a host that the lists refuse, and is forwarded whole. -/
theorem second_not_checked : ¬∀ (relay : Relay) (net : Net) (ending : Ending) (first : Request)
    (later : List Request), Plain relay net first →
      KeptAlive relay net ending (first :: later) := by
  intro hall
  have hkept := hall trackerRelay formSession.net .closed plainRequest [trackerRequest]
    plainRequest_plain
  have hclean := clean_of_keptAlive hkept plainRequest_plain (by decide)
    (List.mem_singleton.mpr rfl)
  have hfree := hclean.headers (utf8 "Proxy-Authorization: Basic eA==") (by decide)
  revert hfree
  decide

end Second

end FuryBrowser.ProfileRelay
