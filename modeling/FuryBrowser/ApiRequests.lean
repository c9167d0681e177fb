import FuryBrowser.HostMask
import FuryBrowser.RelayHeads

/-!
# The requests of the local API

Scripts reach the agent over HTTP on a port of this machine. A request is read by hand: blocks are
read until the head ends, and more of them until as many bytes follow it as its length says, or
until there are no more. What has been read by then is taken for the body. A request with an
origin, for another host or without the token is refused, and of the others each known path is one
method of the agent.
-/

namespace FuryBrowser.LocalApi

open AgentDisk TextBytes TextLines RelayStreams ProfileRelay

/-- How a connection ends: it is closed, or nothing more can be read from it. -/
inductive Ending where
  | closed
  | broken
  deriving DecidableEq, Repr

/-- What a client sends, as it is read. -/
structure Stream where
  /-- The blocks that are read. -/
  reads : List Bytes
  /-- None is empty, or larger than the room for it. -/
  sized : ∀ block ∈ reads, 0 < block.length ∧ block.length ≤ 4096
  ending : Ending

/-- All the bytes that are sent. -/
def Stream.sent (stream : Stream) : Bytes := stream.reads.flatten

/-- `Request`. -/
structure Request where
  method : Text
  path : Text
  body : Text
  origin : Option Text
  host : Option Text
  auth : Option Text
  deriving DecidableEq, Repr

/-- Why there is no request. -/
inductive NoRequest where
  | ended (ending : Ending)
  | headTooLarge
  | bodyTooLarge
  deriving DecidableEq, Repr

section Token

/-- What requests are authorised with. -/
structure Token where
  text : Text
  ne_nil : text ≠ []

/-- The digits of some bytes. -/
def hexText (bytes : Bytes) : Text := bytes.flatMap HostMask.hexByte

/-- `token`: what the file has, if it has something, or else random bytes. -/
def token (existing : Option Text) (random : Vector UInt8 32) : Token :=
  let trimmed := trimText (existing.getD [])
  if h : trimmed = [] then
    ⟨hexText random.toList, by
      have hsize := random.size_toArray
      intro hnil
      rw [hexText, List.flatMap_eq_nil_iff] at hnil
      have hlen : random.toList.length = 32 := random.length_toList
      cases hrandom : random.toList with
      | nil => simp [hrandom] at hlen
      | cons b rest => simpa [HostMask.hexByte] using hnil b (by simp [hrandom])⟩
  else ⟨trimmed, h⟩

end Token

section Reading

/-- `find`: where some bytes are first found. -/
def find (needle : Bytes) : Bytes → Option ℕ
  | [] => none
  | b :: rest => if needle.isPrefixOf (b :: rest) then some 0 else (find needle rest).map (· + 1)

/-- The loop that reads a head: what has been read when it ends, where it ends, and the blocks
that are not read yet. -/
def readHead (ending : Ending) (buf : Bytes) : List Bytes →
    Except NoRequest (Bytes × ℕ × List Bytes)
  | [] => .error (.ended ending)
  | chunk :: rest =>
    match find headEnd (buf ++ chunk) with
    | some pos => .ok (buf ++ chunk, pos + 4, rest)
    | none =>
      if 16 * 1024 < (buf ++ chunk).length then .error .headTooLarge
      else readHead ending (buf ++ chunk) rest

/-- The closure `header`: the first line after the first that begins with the name, in any case,
and a colon. -/
def header (head : Text) (name : String) : Option Text :=
  (((lines head).drop 1).find? fun l => (name.toList ++ [':']).isPrefixOf (lowerText l)).map
    fun l => trimText (((splitOnce ':' l).map Prod.snd).getD [])

/-- The length of the body. -/
def contentLength (head : Text) : ℕ :=
  ((header head "content-length").bind (parseUnsigned (2 ^ 64 - 1))).getD 0

/-- The loop that reads a body. -/
def readBody (ending : Ending) (length : ℕ) (body : Bytes) : List Bytes → Except NoRequest Bytes
  | [] =>
    if length ≤ body.length ∨ ending = .closed then .ok body else .error (.ended ending)
  | chunk :: rest =>
    if length ≤ body.length then .ok body else readBody ending length (body ++ chunk) rest

/-- The words of the first line. -/
def startWords (head : Text) : List Text := words ((lines head).headD [])

/-- The path that is asked for, without its query. -/
def pathOf (head : Text) : Text := (splitAt '?' ((startWords head).getD 1 [])).headD []

/-- `read_request`. -/
def readRequest (stream : Stream) : Except NoRequest Request := do
  let (buf, headEnd, rest) ← readHead stream.ending [] stream.reads
  let head := fromUtf8Lossy (buf.take headEnd)
  let length := contentLength head
  if 1024 * 1024 < length then .error .bodyTooLarge
  else do
    let body ← readBody stream.ending length (buf.drop headEnd) rest
    pure ⟨(startWords head).headD [], pathOf head, fromUtf8Lossy body, header head "origin",
      header head "host", header head "authorization"⟩

end Reading

section Handling

/-- The library that reads JSON. -/
structure SerdeJson (V : Type) where
  fromStr : Text → Option V
  /-- `Value::Null`. -/
  null : V
  /-- The object with no fields. -/
  object : V

/-- What comes of a request. -/
inductive Reply (V : Type) where
  | refused (status : ℕ) (error message : String)
  | dispatched (method : String) (params : V)
  deriving DecidableEq, Repr

/-- `constant_time_eq`. -/
def constantTimeEq (a b : Bytes) : Bool :=
  if a.length ≠ b.length then false
  else (a.zip b).foldl (fun acc (x, y) => acc ||| (x ^^^ y)) 0 = 0

/-- Whether a host is this machine. -/
def hostOk (host : Option Text) : Bool :=
  (host.map fun h =>
    let name := ((rsplitOnce ':' h).map Prod.fst).getD h
    decide (name = "127.0.0.1".toList ∨ name = "localhost".toList ∨ name = "[::1]".toList)).getD
      false

/-- What a request presents as its token. -/
def presented (auth : Option Text) : Text := (auth.bind (stripStart "Bearer ".toList)).getD []

/-- The routes, each of which is one method. -/
def route (method path : Text) : Option String :=
  let routes := [("GET", "/v1/status", "status"), ("GET", "/v1/profiles", "profiles.list"),
    ("GET", "/v1/proxies", "proxies.list"), ("GET", "/v1/personas", "personas.list"),
    ("POST", "/v1/profiles/start", "profile.launch"),
    ("POST", "/v1/profiles/stop", "profile.stop")]
  (routes.find? fun (m, p, _) => m.toList = method && p.toList = path).map fun (_, _, call) => call

variable {V : Type} [DecidableEq V] (json : SerdeJson V)

/-- The parameters that a body spells: none is as good as an empty object. -/
def params (body : Text) : V :=
  let value := (json.fromStr body).getD json.null
  if value = json.null then json.object else value

/-- The checks of `handle`, in their order, and what it dispatches. -/
def answer (token : Token) (req : Request) : Reply V :=
  if req.origin.isSome then
    .refused 403 "origin_present"
      "This endpoint refuses requests from a browser. It is for scripts."
  else if hostOk req.host = false then
    .refused 403 "bad_host" "Address this by its loopback address."
  else if constantTimeEq (bytesOf (presented req.auth)) (bytesOf token.text) = false then
    .refused 401 "unauthenticated" "Send the token from the api-token file as a bearer token."
  else
    match route req.method req.path with
    | none => .refused 404 "not_found" "No such endpoint."
    | some method => .dispatched method (params json req.body)

/-- `handle`. -/
def handle (token : Token) (stream : Stream) : Except NoRequest (Reply V) :=
  (readRequest stream).map (answer json token)

end Handling

section Heads

variable {ending : Ending} {a buf got : Bytes} {reads rest : List Bytes} {n m have_ : ℕ}

/-- A head ends four bytes after a blank line is found. -/
theorem find_headEnd (a : Bytes) : (find headEnd a).map (· + 4) = findHeadersEnd a := by
  induction a with
  | nil => rfl
  | cons b rest ih =>
    rw [find, findHeadersEnd]
    split
    · rfl
    · rw [← ih, Option.map_map, Option.map_map]
      exact congrArg (Option.map · _) (funext fun n => by simp)

/-- How many bytes have been read once there are as many as are needed, or no more come. -/
def stopAt (need : ℕ) (have_ : ℕ) : List Bytes → ℕ
  | [] => have_
  | chunk :: rest => if need ≤ have_ then have_ else stopAt need (have_ + chunk.length) rest

/-- No block leaves more than there is room for while a head of this length has not ended. -/
def headFits (n : ℕ) (have_ : ℕ) : List Bytes → Bool
  | [] => true
  | chunk :: rest =>
    n ≤ have_ + chunk.length ||
      (have_ + chunk.length ≤ 16 * 1024 && headFits n (have_ + chunk.length) rest)

theorem stopAt_add (k : ℕ) : stopAt (k + m) (k + have_) reads = k + stopAt m have_ reads := by
  induction reads generalizing have_ with
  | nil => rfl
  | cons chunk rest ih =>
    rw [stopAt, stopAt, Nat.add_assoc, ih]
    by_cases hle : m ≤ have_
    · rw [if_pos hle, if_pos (by omega)]
    · rw [if_neg hle, if_neg (by omega)]

/-- A head that has not ended yet ends beyond what there is. -/
theorem length_lt_end (hbuf : findHeadersEnd buf = none)
    (h : findHeadersEnd (buf ++ a) = some n) : buf.length < n := by
  by_contra hle
  rw [findHeadersEnd_of_append h (by omega)] at hbuf
  cases hbuf

/-- A head that is read ends where the first head of what is sent does, and reading has not gone
beyond the block it ends in. -/
theorem readHead_ok (hbuf : findHeadersEnd buf = none)
    (h : readHead ending buf reads = .ok (got, n, rest)) :
    findHeadersEnd got = some n ∧ headFits n buf.length reads ∧
      got ++ rest.flatten = buf ++ reads.flatten ∧
      ∀ m, n ≤ m → stopAt m buf.length reads = stopAt m got.length rest := by
  induction reads generalizing buf with
  | nil => cases h
  | cons chunk more ih =>
    rw [readHead] at h
    have hlen : (buf ++ chunk).length = buf.length + chunk.length := List.length_append
    cases hfind : find headEnd (buf ++ chunk) with
    | some pos =>
      have hend : findHeadersEnd (buf ++ chunk) = some (pos + 4) := by
        rw [← find_headEnd, hfind]
        rfl
      simp only [hfind] at h
      cases h
      have hlt : buf.length < pos + 4 := length_lt_end hbuf hend
      have hle : pos + 4 ≤ buf.length + chunk.length := hlen ▸ (findHeadersEnd_le hend).2
      refine ⟨hend, ?_, by simp, fun m hm => ?_⟩
      · simp [headFits, hle]
      · rw [stopAt, if_neg (by omega), hlen]
    | none =>
      have hnone : findHeadersEnd (buf ++ chunk) = none := by
        rw [← find_headEnd, hfind]
        rfl
      simp only [hfind] at h
      split at h
      · cases h
      · rename_i hfits
        obtain ⟨hend, hmore, hall, hstop⟩ := ih hnone h
        have hlt : (buf ++ chunk).length < n := by
          have hwhole := findHeadersEnd_append (b := rest.flatten) hend
          rw [hall] at hwhole
          exact length_lt_end hnone hwhole
        refine ⟨hend, ?_, by rw [hall]; simp, fun m hm => ?_⟩
        · have hroom : buf.length + chunk.length ≤ 16 * 1024 := by omega
          simp only [headFits, Bool.or_eq_true, Bool.and_eq_true, decide_eq_true_iff]
          exact .inr ⟨hroom, hlen ▸ hmore⟩
        · rw [stopAt, if_neg (by omega), ← hlen, hstop m hm]

/-- A head that ends, and for which there is room until it does, is read. -/
theorem readHead_exists (hbuf : findHeadersEnd buf = none)
    (hend : findHeadersEnd (buf ++ reads.flatten) = some n) (hfits : headFits n buf.length reads) :
    ∃ got rest, readHead ending buf reads = .ok (got, n, rest) := by
  induction reads generalizing buf with
  | nil =>
    rw [List.flatten_nil, List.append_nil, hbuf] at hend
    cases hend
  | cons chunk more ih =>
    have hlen : (buf ++ chunk).length = buf.length + chunk.length := List.length_append
    have hflat : buf ++ (chunk :: more).flatten = buf ++ chunk ++ more.flatten := by simp
    rw [hflat] at hend
    rw [readHead]
    cases hfind : find headEnd (buf ++ chunk) with
    | some pos =>
      have hhere : findHeadersEnd (buf ++ chunk) = some (pos + 4) := by
        rw [← find_headEnd, hfind]
        rfl
      rw [findHeadersEnd_append hhere] at hend
      cases hend
      exact ⟨_, _, rfl⟩
    | none =>
      have hnone : findHeadersEnd (buf ++ chunk) = none := by
        rw [← find_headEnd, hfind]
        rfl
      have hlt : (buf ++ chunk).length < n := length_lt_end hnone hend
      simp only [headFits, Bool.or_eq_true, Bool.and_eq_true, decide_eq_true_iff] at hfits
      obtain hle | ⟨hroom, hmore⟩ := hfits
      · omega
      · simp only [if_neg (by omega : ¬16 * 1024 < (buf ++ chunk).length)]
        exact ih hnone hend (hlen ▸ hmore)

/-- A body is what there is when reading stops: all that was needed, unless no more came. -/
theorem readBody_eq (length : ℕ) (body : Bytes) :
    readBody ending length body reads =
      if length ≤ (body ++ reads.flatten).length ∨ ending = .closed then
        .ok ((body ++ reads.flatten).take (stopAt length body.length reads))
      else .error (.ended ending) := by
  induction reads generalizing body with
  | nil => simp [readBody, stopAt]
  | cons chunk more ih =>
    have hlen : (body ++ chunk).length = body.length + chunk.length := List.length_append
    have hflat : body ++ (chunk :: more).flatten = body ++ chunk ++ more.flatten := by simp
    rw [readBody, stopAt]
    by_cases hle : length ≤ body.length
    · have hlong : length ≤ (body ++ (chunk :: more).flatten).length := by
        rw [List.length_append]
        omega
      rw [if_pos hle, if_pos hle, if_pos (.inl hlong), List.take_left]
    · rw [if_neg hle, if_neg hle, ih, hflat, hlen]

end Heads

section Whole

variable {stream : Stream} {n : ℕ}

/-- The text of the head that ends there. -/
def headText (sent : Bytes) (n : ℕ) : Text := fromUtf8Lossy (sent.take n)

/-- A request with a head and a body. -/
def requestOf (head : Text) (body : Bytes) : Request :=
  ⟨(startWords head).headD [], pathOf head, fromUtf8Lossy body, header head "origin",
    header head "host", header head "authorization"⟩

/-- The body that is read: what comes after the head up to where reading stops. -/
def bodyRead (stream : Stream) (n length : ℕ) : Bytes :=
  (stream.sent.take (stopAt (n + length) 0 stream.reads)).drop n

theorem readRequest_head {req : Request} (h : readRequest stream = .ok req) :
    ∃ n, findHeadersEnd stream.sent = some n ∧ headFits n 0 stream.reads := by
  unfold readRequest at h
  cases hread : readHead stream.ending [] stream.reads with
  | error e => rw [hread] at h; cases h
  | ok read =>
    obtain ⟨got, n, rest⟩ := read
    obtain ⟨hend, hfits, hall, -⟩ := readHead_ok rfl hread
    have hsent : got ++ rest.flatten = stream.sent := hall
    exact ⟨n, hsent ▸ findHeadersEnd_append hend, hfits⟩

/-- What `read_request` makes of a stream whose head ends there. -/
theorem readRequest_eq (hend : findHeadersEnd stream.sent = some n)
    (hfits : headFits n 0 stream.reads) :
    readRequest stream =
      if 1024 * 1024 < contentLength (headText stream.sent n) then .error .bodyTooLarge
      else if n + contentLength (headText stream.sent n) ≤ stream.sent.length ∨
          stream.ending = .closed then
        .ok (requestOf (headText stream.sent n)
          (bodyRead stream n (contentLength (headText stream.sent n))))
      else .error (.ended stream.ending) := by
  have hexists : ∃ got rest, readHead stream.ending [] stream.reads = .ok (got, n, rest) :=
    readHead_exists rfl hend hfits
  obtain ⟨got, rest, hread⟩ := hexists
  obtain ⟨hgot, -, hall, hstop⟩ := readHead_ok rfl hread
  have hsent : got ++ rest.flatten = stream.sent := hall
  have hle : n ≤ got.length := (findHeadersEnd_le hgot).2
  have hhead : fromUtf8Lossy (got.take n) = headText stream.sent n := by
    rw [headText, ← hsent, List.take_append_of_le_length hle]
  have hdrop : got.drop n ++ rest.flatten = stream.sent.drop n := by
    rw [← hsent, List.drop_append_of_le_length hle]
  have hlen : (stream.sent.drop n).length = stream.sent.length - n := List.length_drop
  have hsize : n ≤ stream.sent.length := (findHeadersEnd_le hend).2
  have hstopped (length : ℕ) :
      n + stopAt length (got.drop n).length rest = stopAt (n + length) 0 stream.reads := by
    rw [← stopAt_add, List.length_drop, Nat.add_sub_cancel' hle]
    exact (hstop _ (Nat.le_add_right ..)).symm
  have hbody (length : ℕ) :
      (stream.sent.drop n).take (stopAt length (got.drop n).length rest) =
        bodyRead stream n length := by
    rw [bodyRead, ← hstopped, List.drop_take, Nat.add_sub_cancel_left]
  simp only [readRequest, hread, hhead, bind, Except.bind, readBody_eq, hdrop, hbody, hlen]
  split
  · rfl
  · by_cases hcomes : n + contentLength (headText stream.sent n) ≤ stream.sent.length ∨
        stream.ending = .closed
    · rw [if_pos hcomes, if_pos (hcomes.imp_left (by omega))]
      rfl
    · rw [if_neg hcomes, if_neg fun h => hcomes (h.imp_left (by omega))]

end Whole

end FuryBrowser.LocalApi
