import FuryBrowser.ApiRequests

/-!
# What the local API acts on

No page of a browser gets through: a request that is acted on has no origin, is made to this
machine and has the token. What it asks for is read from its own bytes wherever the blocks end,
except that bytes which came in the last block are read as a part of the body, and that a body is
taken for whole when the connection is closed.
-/

namespace FuryBrowser.LocalApi

open AgentDisk TextBytes TextLines RelayStreams ProfileRelay

section Fields

/-- The fields of a head: what stands on a line after the first before its first colon, in small
letters, and what stands after it. -/
def fields (head : Text) : List (Text × Text) :=
  ((lines head).drop 1).filterMap fun line =>
    (splitOnce ':' line).map fun (name, value) => (lowerText name, trimText value)

/-- The number that a text spells, however large it is. -/
def numberOf (text : Text) : Option ℕ :=
  decimalValue <| match text with
    | '+' :: digits => digits
    | _ => text

/-- The length that a request says its body has. -/
def statedLength (head : Text) : ℕ :=
  (((fields head).find? fun field => field.1 = "content-length".toList).bind fun field =>
    numberOf field.2).getD 0

/-- A host that is this machine, with a port or without. -/
def Loopback (host : Text) : Prop :=
  ∃ name ∈ ["127.0.0.1".toList, "localhost".toList, "[::1]".toList],
    host = name ∨ ∃ port, ':' ∉ port ∧ host = name ++ ':' :: port

/-- A request that a page cannot make. -/
structure Authorised (token : Token) (head : Text) : Prop where
  noOrigin : ∀ field ∈ fields head, field.1 ≠ "origin".toList
  /-- It is made to this machine. -/
  loopback : ∃ host, ("host".toList, host) ∈ fields head ∧ Loopback host
  bearer : ("authorization".toList, "Bearer ".toList ++ token.text) ∈ fields head

variable {V : Type} [DecidableEq V] (json : SerdeJson V) (token : Token) (stream : Stream)

/-- What a request asks for: its head and the bytes after it, and nothing else. -/
def callOf (request : Bytes) : Option (String × V) :=
  (findHeadersEnd request).bind fun n =>
    (route ((startWords (headText request n)).headD []) (pathOf (headText request n))).map
      fun method => (method, params json (fromUtf8Lossy (request.drop n)))

/-- What is dispatched is what an authorised request asks for, all of which has arrived. -/
def ActsOnWhole : Prop :=
  ∀ method value, handle json token stream = .ok (.dispatched method value) →
    ∃ n, findHeadersEnd stream.sent = some n ∧
      Authorised token (headText stream.sent n) ∧
      n + statedLength (headText stream.sent n) ≤ stream.sent.length ∧
      callOf json (stream.sent.take (n + statedLength (headText stream.sent n))) =
        some (method, value)

/-- What a head that is let through asks for. -/
def letThrough (head : Text) : Option String :=
  if (header head "origin").isSome || !hostOk (header head "host") ||
      !constantTimeEq (bytesOf (presented (header head "authorization"))) (bytesOf token.text) then
    none
  else route ((startWords head).headD []) (pathOf head)

/-- Of a request that is let through, all of the body has arrived, and it spells the same
parameters as what has been read when reading stops. -/
def Whole : Prop :=
  ∀ n, findHeadersEnd stream.sent = some n → (letThrough token (headText stream.sent n)).isSome →
    headFits n 0 stream.reads → contentLength (headText stream.sent n) ≤ 1024 * 1024 →
    (n + contentLength (headText stream.sent n) ≤ stream.sent.length ∨ stream.ending = .closed) →
    n + statedLength (headText stream.sent n) ≤ stream.sent.length ∧
      params json (fromUtf8Lossy (bodyRead stream n (contentLength (headText stream.sent n)))) =
        params json (fromUtf8Lossy
          ((stream.sent.take (n + statedLength (headText stream.sent n))).drop n))

end Fields

section Headers

variable {head l : Text} {name : String} {value : Text}

theorem toLower_colon {c : Char} : c.toLower = ':' ↔ c = ':' := by
  rw [← Char.toNat_inj, ← Char.toNat_inj, toNat_toLower]
  change _ = 58 ↔ _ = 58
  split <;> omega

/-- A line that begins with a name and a colon is a field of that name. -/
theorem begins_iff {name : Text} (h : ':' ∉ name) :
    (name ++ [':']).isPrefixOf (lowerText l) ↔
      ∃ field rest, splitOnce ':' l = some (field, rest) ∧ lowerText field = name := by
  rw [List.isPrefixOf_iff_prefix]
  constructor
  · rintro ⟨more, hmore⟩
    rw [List.append_assoc, List.singleton_append] at hmore
    obtain ⟨field, others, rfl, hfield, hothers⟩ := List.map_eq_append_iff.mp hmore.symm
    obtain ⟨c, rest, rfl, hc, -⟩ := List.map_eq_cons_iff.mp hothers
    obtain rfl := toLower_colon.mp hc
    refine ⟨field, rest, splitOnce_append fun hin => h ?_, hfield⟩
    rw [← hfield]
    exact List.mem_map.mpr ⟨':', hin, by decide⟩
  · rintro ⟨field, rest, hsplit, rfl⟩
    rw [splitOnce_eq hsplit]
    exact ⟨lowerText rest, by simp [lowerText]⟩

/-- A header is the first field of that name. -/
theorem header_eq (h : ':' ∉ name.toList) :
    header head name = ((fields head).find? fun field => field.1 = name.toList).map Prod.snd := by
  unfold header fields
  induction (lines head).drop 1 with
  | nil => rfl
  | cons line rest ih =>
    rw [List.find?_cons]
    cases hsplit : splitOnce ':' line with
    | none =>
      have hbegins : (name.toList ++ [':']).isPrefixOf (lowerText line) = false := by
        rw [Bool.eq_false_iff]
        intro hprefix
        obtain ⟨field, value, hsome, -⟩ := (begins_iff h).mp hprefix
        rw [hsplit] at hsome
        cases hsome
      rw [hbegins, List.filterMap_cons_none (by rw [hsplit]; rfl)]
      exact ih
    | some parts =>
      obtain ⟨field, value⟩ := parts
      rw [List.filterMap_cons_some (by rw [hsplit]; rfl), List.find?_cons]
      by_cases hfield : lowerText field = name.toList
      · rw [(begins_iff h).mpr ⟨field, value, hsplit, hfield⟩, decide_eq_true hfield]
        simp [hsplit]
      · have hbegins : (name.toList ++ [':']).isPrefixOf (lowerText line) = false := by
          rw [Bool.eq_false_iff]
          intro hprefix
          obtain ⟨field', value', hsome, hname⟩ := (begins_iff h).mp hprefix
          rw [hsplit] at hsome
          cases hsome
          exact hfield hname
        rw [hbegins, decide_eq_false hfield]
        exact ih

theorem header_some (h : ':' ∉ name.toList) (hvalue : header head name = some value) :
    (name.toList, value) ∈ fields head := by
  rw [header_eq h] at hvalue
  obtain ⟨field, hfind, rfl⟩ := Option.map_eq_some_iff.mp hvalue
  have hname : field.1 = name.toList := of_decide_eq_true (List.find?_some hfind :)
  exact hname ▸ List.mem_of_find?_eq_some hfind

theorem header_none (h : ':' ∉ name.toList) (hvalue : header head name = none) :
    ∀ field ∈ fields head, field.1 ≠ name.toList := by
  rw [header_eq h, Option.map_eq_none_iff, List.find?_eq_none] at hvalue
  intro field hin
  simpa using hvalue field hin

end Headers

section Checks

variable {a b : Bytes} {host text other : Text} {auth : Option Text}

theorem foldl_xor (acc : UInt8) (pairs : List (UInt8 × UInt8)) :
    pairs.foldl (fun acc (x, y) => acc ||| (x ^^^ y)) acc = 0 ↔
      acc = 0 ∧ ∀ pair ∈ pairs, pair.1 = pair.2 := by
  induction pairs generalizing acc with
  | nil => simp
  | cons pair rest ih =>
    rw [List.foldl_cons, ih, UInt8.or_eq_zero_iff, UInt8.xor_eq_zero_iff, List.forall_mem_cons,
      and_assoc]

/-- `constant_time_eq` is equality. -/
theorem constantTimeEq_iff : constantTimeEq a b ↔ a = b := by
  unfold constantTimeEq
  by_cases hlen : a.length = b.length
  · rw [if_neg (by simpa using hlen), decide_eq_true_iff, foldl_xor]
    constructor
    · rintro ⟨-, hpairs⟩
      refine List.ext_getElem hlen fun i ha hb => ?_
      exact hpairs (a[i], b[i]) (List.mem_iff_getElem.mpr ⟨i, by simp; omega, by simp⟩)
    · rintro rfl
      refine ⟨rfl, fun pair hin => ?_⟩
      obtain ⟨i, hi, rfl⟩ := List.mem_iff_getElem.mp hin
      simp
  · rw [if_pos hlen]
    exact iff_of_false Bool.false_ne_true fun heq => hlen (heq ▸ rfl)

/-- Texts with the same bytes are the same. -/
theorem bytesOf_injective (h : bytesOf text = bytesOf other) : text = other := by
  have hbytes : (String.ofList text).toByteArray = (String.ofList other).toByteArray :=
    congrArg List.toByteArray h
  exact String.ofList_injective (String.toByteArray_inj.mp hbytes)

/-- A host that is let through is this machine. -/
theorem loopback_of_hostOk (h : hostOk (some host)) : Loopback host := by
  have hname : ((rsplitOnce ':' host).map Prod.fst).getD host ∈
      ["127.0.0.1".toList, "localhost".toList, "[::1]".toList] := by
    rw [List.mem_cons, List.mem_cons, List.mem_singleton]
    exact of_decide_eq_true h
  refine ⟨_, hname, ?_⟩
  by_cases hcolon : ':' ∈ host.reverse
  · obtain ⟨port, before, hshape, hport⟩ := List.eq_append_cons_of_mem hcolon
    right
    refine ⟨port.reverse, by simpa using hport, ?_⟩
    rw [rsplitOnce, hshape, splitOnce_append hport]
    simpa using congrArg List.reverse hshape
  · left
    rw [rsplitOnce, splitOnce_of_notMem hcolon]
    rfl

/-- What is presented is what follows the word. -/
theorem presented_eq {token : Token} (h : presented auth = token.text) :
    auth = some ("Bearer ".toList ++ token.text) := by
  unfold presented at h
  cases hbearer : auth.bind (stripStart "Bearer ".toList) with
  | none => exact absurd (hbearer ▸ h).symm token.ne_nil
  | some text =>
    obtain ⟨value, rfl, hvalue⟩ := Option.bind_eq_some_iff.mp hbearer
    rw [hbearer] at h
    rw [stripStart_eq hvalue, ← h]
    rfl

end Checks

section Dispatch

variable {V : Type} [DecidableEq V] {json : SerdeJson V} {token : Token} {stream : Stream}
variable {head : Text} {body : Bytes} {method : String} {value : V} {n length : ℕ}

/-- What is dispatched is what the head that is let through asks for, with what the body spells. -/
theorem answer_dispatched :
    answer json token (requestOf head body) = .dispatched method value ↔
      letThrough token head = some method ∧ params json (fromUtf8Lossy body) = value := by
  unfold answer letThrough requestOf
  cases (header head "origin").isSome with
  | true => simp
  | false =>
    cases hostOk (header head "host") with
    | false => simp
    | true =>
      cases constantTimeEq (bytesOf (presented (header head "authorization")))
          (bytesOf token.text) with
      | false => simp
      | true => cases route ((startWords head).headD []) (pathOf head) <;> simp

/-- A head that is let through is one that no page can send. -/
theorem authorised_of_letThrough (h : letThrough token head = some method) :
    Authorised token head ∧ route ((startWords head).headD []) (pathOf head) = some method := by
  unfold letThrough at h
  split at h
  · cases h
  · rename_i hchecks
    rw [Bool.or_eq_true, Bool.or_eq_true, not_or, not_or, Bool.not_eq_true, Bool.not_eq_true',
      Bool.not_eq_true', Bool.not_eq_false, Bool.not_eq_false, Option.isSome_eq_false_iff,
      Option.isNone_iff_eq_none] at hchecks
    obtain ⟨⟨horigin, hhost⟩, htoken⟩ := hchecks
    have hbearer := presented_eq (bytesOf_injective (constantTimeEq_iff.mp htoken))
    refine ⟨⟨header_none (by decide) horigin, ?_, header_some (by decide) hbearer⟩, h⟩
    cases hvalue : header head "host" with
    | none =>
      rw [hvalue] at hhost
      cases hhost
    | some host =>
      rw [hvalue] at hhost
      exact ⟨host, header_some (by decide) hvalue, loopback_of_hostOk hhost⟩

/-- When something is dispatched, and what. -/
theorem handle_dispatched :
    handle json token stream = .ok (.dispatched method value) ↔
      ∃ n, findHeadersEnd stream.sent = some n ∧ headFits n 0 stream.reads ∧
        contentLength (headText stream.sent n) ≤ 1024 * 1024 ∧
        (n + contentLength (headText stream.sent n) ≤ stream.sent.length ∨
          stream.ending = .closed) ∧
        letThrough token (headText stream.sent n) = some method ∧
        params json (fromUtf8Lossy
          (bodyRead stream n (contentLength (headText stream.sent n)))) = value := by
  constructor
  · intro h
    obtain ⟨req, hread, hanswer⟩ : ∃ req, readRequest stream = .ok req ∧
        answer json token req = .dispatched method value := by
      unfold handle at h
      cases hread : readRequest stream with
      | error e => rw [hread] at h; cases h
      | ok req => rw [hread] at h; exact ⟨req, rfl, Except.ok.inj h⟩
    obtain ⟨n, hend, hfits⟩ := readRequest_head hread
    rw [readRequest_eq hend hfits] at hread
    split_ifs at hread with hlarge hcomes
    cases hread
    exact ⟨n, hend, hfits, by omega, hcomes, answer_dispatched.mp hanswer⟩
  · rintro ⟨n, hend, hfits, hlarge, hcomes, hcall⟩
    rw [handle, readRequest_eq hend hfits, if_neg (by omega), if_pos hcomes]
    exact congrArg Except.ok (answer_dispatched.mpr hcall)

/-- A request's head and body, taken apart from what follows it. -/
theorem callOf_take (hend : findHeadersEnd stream.sent = some n) :
    callOf json (stream.sent.take (n + length)) =
      (route ((startWords (headText stream.sent n)).headD [])
        (pathOf (headText stream.sent n))).map fun method =>
          (method, params json (fromUtf8Lossy ((stream.sent.take (n + length)).drop n))) := by
  have hle : n ≤ (stream.sent.take (n + length)).length := by
    rw [List.length_take]
    exact Nat.le_min.mpr ⟨Nat.le_add_right .., (findHeadersEnd_le hend).2⟩
  have hhere : findHeadersEnd (stream.sent.take (n + length)) = some n := by
    refine findHeadersEnd_of_append (b := stream.sent.drop (n + length)) ?_ hle
    rw [List.take_append_drop, hend]
  have hhead : headText (stream.sent.take (n + length)) n = headText stream.sent n := by
    rw [headText, List.take_take, Nat.min_eq_left (Nat.le_add_right ..), headText]
  rw [callOf, hhere, Option.bind_some, hhead]

/-- The API acts only on what has arrived whole and was not made by a page, just when no bytes are
missing from what it lets through and those that came beside it do not matter. -/
theorem acts_iff (json : SerdeJson V) (token : Token) (stream : Stream) :
    ActsOnWhole json token stream ↔ Whole json token stream := by
  constructor
  · intro h n hend hthrough hfits hlarge hcomes
    obtain ⟨method, hmethod⟩ := Option.isSome_iff_exists.mp hthrough
    obtain ⟨m, hm, -, harrived, hcall⟩ :=
      h method _ (handle_dispatched.mpr ⟨n, hend, hfits, hlarge, hcomes, hmethod, rfl⟩)
    obtain rfl : n = m := Option.some.inj (hend.symm.trans hm)
    rw [callOf_take hend, (authorised_of_letThrough hmethod).2] at hcall
    exact ⟨harrived, (congrArg Prod.snd (Option.some.inj hcall)).symm⟩
  · intro h method value hdispatched
    obtain ⟨n, hend, hfits, hlarge, hcomes, hmethod, rfl⟩ := handle_dispatched.mp hdispatched
    obtain ⟨hauthorised, hroute⟩ := authorised_of_letThrough hmethod
    obtain ⟨harrived, hparams⟩ := h n hend (hmethod ▸ rfl) hfits hlarge hcomes
    refine ⟨n, hend, hauthorised, harrived, ?_⟩
    rw [callOf_take hend, hroute, hparams]
    rfl

end Dispatch

section Cut

/-- A library that reads one object and null. -/
def twoValues : SerdeJson ℕ where
  fromStr text :=
    if text = "\x7b\"id\":\"a\"\x7d".toList then some 2
    else if text = "\x7b\x7d".toList then some 1
    else if text = "null".toList then some 0
    else none
  null := 0
  object := 1

/-- A token. -/
def someToken : Token := ⟨"00ff".toList, by decide⟩

/-- A request to start a profile, of whose body the last byte does not arrive. -/
def cutShort : Stream where
  reads := [bytesOf ("POST /v1/profiles/start HTTP/1.1\r\nHost: 127.0.0.1:35000\r\n" ++
    "Authorization: Bearer 00ff\r\nContent-Length: 10\r\n\r\n\x7b\"id\":\"a\"").toList]
  sized := by decide +kernel
  ending := .closed

/-- It is dispatched with no parameters. -/
theorem cutShort_acts : ¬ActsOnWhole twoValues someToken cutShort := by
  intro h
  obtain ⟨n, hend, -, harrived, -⟩ := h "profile.launch" 1 (by decide +kernel)
  have hhead : findHeadersEnd cutShort.sent = some 107 := by decide +kernel
  obtain rfl : n = 107 := Option.some.inj (hend.symm.trans hhead)
  exact absurd harrived (by decide +kernel)

end Cut

end FuryBrowser.LocalApi
