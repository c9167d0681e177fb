import FuryBrowser.RelayServing
import Mathlib.Data.List.TakeWhile

/-!
# How a plain request is forwarded

The head of a plain request is taken apart into lines and put together again, and what the client
sent after it follows. The blank line that ends the head is one of its lines, and another one is
put after it, so the body begins two bytes late.
-/

namespace FuryBrowser.ProfileRelay

open AgentDisk TextBytes TextLines RelayStreams ProgramRules

section Lines

/-- What ends a line of a head. -/
def crlf : Bytes := [13, 10]

/-- The lines of some bytes, of which the last may have no end. -/
def crlfLines : Bytes → List Bytes
  | [] => [[]]
  | b :: rest =>
    match crlfLines rest with
    | [] => [[b]]
    | line :: more =>
      if b = 13 ∧ rest.head? = some 10 then [] :: line.tail :: more else (b :: line) :: more

/-- The lines of a head after the first, up to the blank one. -/
def headerLines (head : Bytes) : List Bytes := (crlfLines head).tail.takeWhile (· ≠ [])

/-- A header that is for a proxy. -/
def isProxyHeader (line : Bytes) : Bool := beginsWith (utf8 "proxy-") line

variable {bytes rest line : Bytes}

theorem crlfLines_ne_nil (bytes : Bytes) : crlfLines bytes ≠ [] := by
  cases bytes with
  | nil => simp [crlfLines]
  | cons b rest =>
    rw [crlfLines]
    split
    · simp
    · split <;> simp

/-- The first line begins as the bytes do. -/
theorem crlfLines_head {more : List Bytes} (h : crlfLines bytes = line :: more) :
    line = [] ∨ line.head? = bytes.head? := by
  cases bytes with
  | nil =>
    cases h
    exact .inl rfl
  | cons b rest =>
    rw [crlfLines] at h
    split at h
    · cases h
      exact .inr rfl
    · split at h
      · cases h
        exact .inl rfl
      · cases h
        exact .inr rfl

theorem crlfLines_free (h : line ∈ crlfLines bytes) : ¬crlf <:+: line := by
  induction bytes generalizing line with
  | nil =>
    rw [crlfLines, List.mem_singleton] at h
    subst h
    decide
  | cons b rest ih =>
    rw [crlfLines] at h
    cases hrest : crlfLines rest with
    | nil => exact absurd hrest (crlfLines_ne_nil rest)
    | cons first more =>
      rw [hrest] at h ih
      have hfirst := ih List.mem_cons_self
      dsimp only at h
      split at h
      · rcases List.mem_cons.mp h with rfl | h
        · decide
        · rcases List.mem_cons.mp h with rfl | h
          · exact fun hin => hfirst (hin.trans (List.tail_suffix first).isInfix)
          · exact ih (List.mem_cons_of_mem _ h)
      · rename_i hnot
        rcases List.mem_cons.mp h with rfl | h
        · intro hin
          rcases List.infix_cons_iff.mp hin with hstart | hin
          · obtain ⟨more', hmore⟩ := hstart
            obtain ⟨rfl, heq⟩ := List.cons.inj hmore
            refine hnot ⟨rfl, ?_⟩
            rcases crlfLines_head hrest with hempty | hhead
            · rw [hempty] at heq
              cases heq
            · rw [← hhead, ← heq]
              rfl
          · exact hfirst hin
        · exact ih (List.mem_cons_of_mem _ h)

/-- A line without a carriage return, and its end. -/
theorem crlfLines_cons (h : 13 ∉ line) :
    crlfLines (line ++ crlf ++ rest) = line :: crlfLines rest := by
  induction line with
  | nil =>
    change crlfLines (13 :: 10 :: rest) = _
    rw [crlfLines, crlfLines]
    cases hrest : crlfLines rest with
    | nil => exact absurd hrest (crlfLines_ne_nil rest)
    | cons first more =>
      have hfeed : ¬((10 : UInt8) = 13 ∧ rest.head? = some 10) :=
        fun hin => absurd hin.1 (by decide)
      dsimp only
      rw [if_neg hfeed]
      exact if_pos ⟨rfl, rfl⟩
  | cons b line ih =>
    have hb : b ≠ 13 := fun heq => h (heq ▸ List.mem_cons_self)
    change crlfLines (b :: (line ++ crlf ++ rest)) = _
    rw [crlfLines, ih fun hin => h (List.mem_cons_of_mem _ hin)]
    dsimp only
    rw [if_neg fun hend => hb hend.1]

theorem crlfLines_flatMap {all : List Bytes} (h : ∀ l ∈ all, 13 ∉ l) :
    crlfLines (all.flatMap (· ++ crlf) ++ rest) = all ++ crlfLines rest := by
  induction all with
  | nil => rfl
  | cons l more ih =>
    rw [List.flatMap_cons, List.append_assoc, crlfLines_cons (h l List.mem_cons_self),
      ih fun l hl => h l (List.mem_cons_of_mem _ hl), List.cons_append]

/-- A line and its end, and some more, end in a line feed. -/
theorem ends_in_feed (line : Bytes) (kept : List Bytes) :
    ∃ y, line ++ crlf ++ kept.flatMap (· ++ crlf) = y ++ [10] := by
  rcases kept.eq_nil_or_concat with rfl | ⟨before, last, rfl⟩
  · exact ⟨line ++ [13], by simp [crlf]⟩
  · exact ⟨line ++ crlf ++ before.flatMap (· ++ crlf) ++ last ++ [13], by simp [crlf]⟩

/-- Lines, none of them empty, end in one blank line and not in two. -/
theorem one_blank_line {kept : List Bytes} {z : Bytes} (hline : ¬crlf <:+: line)
    (hkept : ∀ l ∈ kept, l ≠ [] ∧ ¬crlf <:+: l) :
    line ++ crlf ++ kept.flatMap (· ++ crlf) ++ crlf ≠ z ++ crlf ++ crlf ++ crlf := by
  intro heq
  have hrest := List.append_cancel_right heq
  rcases kept.eq_nil_or_concat with rfl | ⟨before, last, rfl⟩
  · rw [List.flatMap_nil, List.append_nil] at hrest
    have hend := List.append_cancel_right hrest
    exact hline ⟨z, [], by rw [hend, List.append_nil]⟩
  · obtain ⟨hne, hfree⟩ := hkept last (by simp)
    obtain ⟨y, hy⟩ := ends_in_feed line before
    rw [List.concat_eq_append, List.flatMap_append, List.flatMap_singleton,
      ← List.append_assoc, ← List.append_assoc, hy] at hrest
    have hend := List.append_cancel_right hrest
    rcases last.eq_nil_or_concat with rfl | ⟨init, c, rfl⟩
    · exact hne rfl
    · rw [List.concat_eq_append] at hend hfree
      have hshape : z ++ crlf = z ++ [13] ++ [10] := by simp [crlf]
      rw [hshape, ← List.append_assoc] at hend
      obtain ⟨hinit, hc⟩ := List.append_inj' hend rfl
      rcases init.eq_nil_or_concat with rfl | ⟨init', d, rfl⟩
      · rw [List.append_nil] at hinit
        exact absurd (List.append_inj' hinit rfl).2 (by decide)
      · rw [List.concat_eq_append, ← List.append_assoc] at hinit
        have hd := (List.append_inj' hinit rfl).2
        exact hfree ⟨init', [], by simp [crlf, (List.cons.inj hc).1, (List.cons.inj hd).1]⟩

end Lines

section Rebuilding

/-- A head is put together with a blank line more than it had. -/
theorem stripProxyHeaders_blank (x : Text) :
    ∃ y, stripProxyHeaders (x ++ newline ++ newline) = y ++ newline ++ newline ++ newline := by
  have hshape : x ++ newline ++ newline = (x ++ ['\r']) ++ '\n' :: newline := by simp [newline]
  have hlast : lines newline = [[]] := by decide
  unfold stripProxyHeaders
  rw [hshape, lines_append, hlast]
  cases hparts : splitAt '\n' (x ++ ['\r']) with
  | nil => exact absurd hparts (splitAt_ne_nil _)
  | cons first mid =>
    have hkeep : ([[]] : List Text).filter (!isStripped ·) = [[]] := by decide
    rw [List.map_cons, List.cons_append]
    dsimp only
    rw [List.filter_append, hkeep, List.flatMap_append, List.flatMap_singleton, List.nil_append]
    rcases ((mid.map stripReturn).filter (!isStripped ·)).eq_nil_or_concat with
      hnone | ⟨before, last, hsome⟩
    · rw [hnone]
      exact ⟨originLine (stripReturn first), by simp⟩
    · rw [hsome]
      exact ⟨originLine (stripReturn first) ++ newline ++ before.flatMap (· ++ newline) ++ last,
        by simp⟩

/-- The text of a head ends in a blank line as its bytes do. -/
theorem fromUtf8Lossy_headEnd (x : Bytes) :
    fromUtf8Lossy (x ++ headEnd) = fromUtf8Lossy x ++ newline ++ newline := by
  have hrest : fromUtf8Lossy [10, 13, 10] = ['\n', '\r', '\n'] := by decide
  have hsplit : fromUtf8Lossy (x ++ 13 :: [10, 13, 10]) =
      fromUtf8Lossy x ++ .ofNat (13 : UInt8).toNat :: fromUtf8Lossy [10, 13, 10] :=
    fromUtf8Lossy_append (by decide)
  have hchar : Char.ofNat (13 : UInt8).toNat = '\r' := by decide
  rw [headEnd, hsplit, hrest, hchar]
  simp [newline]

end Rebuilding

section Forwarding

variable {relay : Relay} {w : Session} {sent written : Bytes}

/-- The session forwards a plain request. -/
def Relay.forwards (relay : Relay) (w : Session) : Bool :=
  match readRequestHead w.client with
  | .error _ _ => false
  | .ok (head, leftover) s =>
    match parseRequestLine head with
    | none => false
    | some (method, _) =>
      method ≠ "CONNECT".toList &&
        match relay.serve head leftover { w with client := s } with
        | .error _ _ => false
        | .ok going _ => going

theorem forwards_iff : relay.forwards w = true ↔ ∃ head leftover s method target w',
    readRequestHead w.client = .ok (head, leftover) s ∧
      parseRequestLine head = some (method, target) ∧ method ≠ "CONNECT".toList ∧
      relay.serve head leftover { w with client := s } = .ok true w' := by
  unfold Relay.forwards
  constructor
  · intro h
    cases hread : readRequestHead w.client with
    | error e s => simp [hread] at h
    | ok result s =>
      obtain ⟨head, leftover⟩ := result
      simp only [hread] at h
      cases hline : parseRequestLine head with
      | none => simp [hline] at h
      | some line =>
        obtain ⟨method, target⟩ := line
        simp only [hline, Bool.and_eq_true, decide_eq_true_eq] at h
        cases hserve : relay.serve head leftover { w with client := s } with
        | error e w' => simp [hserve] at h
        | ok going w' =>
          simp only [hserve] at h
          obtain ⟨hplain, rfl⟩ := h
          exact ⟨head, leftover, s, method, target, w', rfl, hline, hplain, hserve⟩
  · rintro ⟨head, leftover, s, method, target, w', hread, hline, hplain, hserve⟩
    simp only [hread, hline, hserve, Bool.and_true, decide_eq_true_eq]
    exact hplain

/-- What is written upstream is one request line, the header lines that are not for a proxy, one
blank line, and what the client sent after its own. -/
def Faithful (sent written : Bytes) : Prop :=
  ∃ pos line, findHeadersEnd sent = some pos ∧ ¬crlf <:+: line ∧
    written = line ++ crlf ++
      ((headerLines (sent.take pos)).filter (!isProxyHeader ·)).flatMap (· ++ crlf) ++ crlf ++
      sent.drop pos

/-- What is written upstream, however the request was cut. -/
theorem forwarded_written (h : relay.forwards w = true) (hwhole : w.failure = none) :
    ∃ pos, findHeadersEnd w.client.arrivals.flatten = some pos ∧
      (leaves relay.handleClient w).upstream.written =
        bytesOf (stripProxyHeaders (fromUtf8Lossy (w.client.arrivals.flatten.take pos))) ++
          w.client.arrivals.flatten.drop pos := by
  obtain ⟨head, leftover, s, method, target, w', hread, hline, hplain, hserve⟩ :=
    forwards_iff.mp h
  obtain ⟨pos, hpos, rfl, hleft, -, hs⟩ := readRequestHead_ok hread
  obtain ⟨method', target', host, port, isLocal, up, net, hline', -, hconnect, hgreet⟩ :=
    serve_true hserve
  rw [hline] at hline'
  cases hline'
  obtain ⟨faults, rfl⟩ := greet_plain hplain hgreet
  refine ⟨pos, hpos, ?_⟩
  rw [leaves_handleClient hread hserve]
  obtain ⟨hup, -⟩ := leaves_copyBidirectional (w := { w with
    client := s, net := net, upstream := { up with
      written := up.written ++ bytesOf (stripProxyHeaders _) ++ leftover
      faults := faults } }) hwhole
  rw [hup, connect_written hconnect, List.nil_append, List.append_assoc, hleft]

/-- A body that follows two blank lines is late. -/
theorem late_not_faithful {pos : ℕ} {y : Bytes} (hpos : findHeadersEnd sent = some pos)
    (hwritten : written = y ++ crlf ++ crlf ++ crlf ++ sent.drop pos) :
    ¬Faithful sent written := by
  rintro ⟨pos', line, hpos', hline, heq⟩
  rw [hpos] at hpos'
  cases hpos'
  rw [hwritten] at heq
  refine one_blank_line hline (fun l hl => ?_) (List.append_cancel_right heq).symm
  have hin := (List.mem_filter.mp hl).1
  have hne := List.mem_takeWhile_imp hin
  have hsub := List.mem_of_mem_tail (List.takeWhile_subset _ hin)
  exact ⟨by simpa using hne, crlfLines_free hsub⟩

/-- The body of every request that is forwarded is late. -/
theorem forwarded_late (h : relay.forwards w = true) (hwhole : w.failure = none) :
    ¬Faithful w.client.arrivals.flatten (leaves relay.handleClient w).upstream.written := by
  obtain ⟨pos, hpos, hwritten⟩ := forwarded_written h hwhole
  obtain ⟨x, hx, -⟩ := findHeadersEnd_take hpos
  obtain ⟨y, hy⟩ := stripProxyHeaders_blank (fromUtf8Lossy x)
  have hline : bytesOf newline = crlf := by decide
  rw [hx, fromUtf8Lossy_headEnd, hy, bytesOf_append, bytesOf_append, bytesOf_append, hline]
    at hwritten
  exact late_not_faithful hpos hwritten

end Forwarding

section Form

/-- A relay without a proxy. -/
def directRelay : Relay where
  upstream := .direct
  blocked := .empty
  token := []
  port := none
  allowLocal := false
  body := fun _ => []

/-- A client that sends a form to an address that takes the connection. -/
def formSession : Session where
  client := ⟨[utf8 "POST http://93.184.216.34/ HTTP/1.1\r\nHost: 93.184.216.34\r\n\r\na=1"],
    .closed, [], []⟩
  upstream := ⟨[], .silent, [], []⟩
  net := ⟨[], [.connected ⟨[utf8 "HTTP/1.1 204 No Content\r\n\r\n"], .closed, [], []⟩], [], [], []⟩
  failure := none

theorem forwarded_late_form :
    ¬Faithful formSession.client.arrivals.flatten
      (leaves directRelay.handleClient formSession).upstream.written :=
  forwarded_late (by decide) rfl

theorem body_two_bytes_late : ¬∀ (relay : Relay) (w : Session), relay.forwards w = true →
    w.failure = none →
      Faithful w.client.arrivals.flatten (leaves relay.handleClient w).upstream.written := by
  intro hall
  have hwritten : (leaves directRelay.handleClient formSession).upstream.written =
      utf8 "POST / HTTP/1.1\r\nHost: 93.184.216.34" ++ crlf ++ crlf ++ crlf ++
        formSession.client.arrivals.flatten.drop 60 := by
    decide
  exact late_not_faithful (by decide) hwritten
    (hall directRelay formSession (by decide) rfl)

end Form

end FuryBrowser.ProfileRelay
