import FuryBrowser.DomainLists

/-!
# Connections, and what a proxy is asked over one

A connection is what the other side still sends, in the pieces the network makes of it, and what
was written to it. Over one, the head of a request is read in blocks, and a proxy is asked for a
target in its own protocol.
-/

namespace FuryBrowser.RelayStreams

open AgentDisk TextBytes TextLines IpAddress

section Errors

/-- `io::ErrorKind`, as far as it is told apart. -/
inductive IoError where
  | connectionReset
  | connectionAborted
  | brokenPipe
  | unexpectedEof
  | timedOut
  | notFound
  | other
  deriving DecidableEq, Repr

/-- The protocol an address is said to speak. -/
inductive Protocol where
  | http
  | socks5
  deriving DecidableEq, Repr

/-- What the far end did instead of speaking it. -/
inductive Saw where
  /-- It closed without answering the greeting. -/
  | closedAtGreeting
  | answeredInHttp
  /-- It answered another byte where the version belongs. -/
  | answered (byte : UInt8)
  /-- It closed without answering. -/
  | closedUnanswered
  /-- Its answer does not begin with a status line. -/
  | noStatusLine
  /-- It said nothing in time. -/
  | silence
  deriving DecidableEq, Repr

/-- Why a target was refused. -/
inductive Reason where
  /-- The code a SOCKS5 proxy gave. -/
  | socks (code : UInt8)
  /-- The status an HTTP proxy gave. -/
  | status (code : ℕ)
  /-- It resolves to an address on this machine or its network. -/
  | resolvesHere (address : IpAddr)
  /-- It is on a list of the local network, and does not resolve to private addresses only. -/
  | notPrivate (addresses : List IpAddr)
  | tunnel (why : Text)
  deriving DecidableEq, Repr

/-- `RelayError`. -/
inductive RelayError where
  | upstreamUnreachable (error : IoError)
  | authRejected
  | noLoginAccepted
  | wrongProtocol (expected : Protocol) (saw : Saw)
  | connectRejected (target : Text) (reason : Reason)
  | badRequest
  | io (error : IoError)
  deriving DecidableEq, Repr

/-- How a session comes to its end early. -/
inductive Stop where
  | failed (error : RelayError)
  /-- It waits for what does not come. -/
  | waiting
  deriving DecidableEq, Repr

/-- `hung_up`. -/
def hungUp : IoError → Bool
  | .connectionReset | .connectionAborted | .brokenPipe | .unexpectedEof => true
  | _ => false

end Errors

section Streams

/-- What comes after the last piece the other side sent. -/
inductive Ending where
  | closed
  | failed (error : IoError)
  | silent
  deriving DecidableEq, Repr

/-- A connection. -/
structure Stream where
  /-- What the other side still sends, in the pieces it arrives in. -/
  arrivals : List Bytes
  ending : Ending
  /-- What was written to it. -/
  written : Bytes
  /-- How the next writes come out: an error, after so many bytes, or none. Later ones succeed. -/
  faults : List (Option (ℕ × IoError))
  deriving DecidableEq, Repr

/-- What is done over one connection. -/
abbrev Talk := EStateM Stop Stream

/-- The next block of at most so many bytes. A piece without bytes wakes no reader. -/
def nextBlock (size : ℕ) : List Bytes → Option (Bytes × List Bytes)
  | [] => none
  | [] :: rest => nextBlock size rest
  | (b :: piece) :: rest => some ((b :: piece).take size, (b :: piece).drop size :: rest)

/-- `read`: a block, or nothing once the other side has closed. -/
def readBlock (size : ℕ) : Talk Bytes := fun s =>
  match nextBlock size s.arrivals with
  | some (block, rest) => .ok block { s with arrivals := rest }
  | none =>
    match s.ending with
    | .closed => .ok [] s
    | .failed e => .error (.failed (.io e)) s
    | .silent => .error .waiting s

/-- `write_all`. -/
def writeAll (bytes : Bytes) : Talk Unit := fun s =>
  match s.faults with
  | some (n, e) :: faults =>
    .error (.failed (.io e)) { s with written := s.written ++ bytes.take n, faults := faults }
  | none :: faults => .ok () { s with written := s.written ++ bytes, faults := faults }
  | [] => .ok () { s with written := s.written ++ bytes }

/-- The loop of `read_exact`, in which every turn reads a byte at least. -/
def readExactUpTo : ℕ → ℕ → Talk Bytes
  | 0, _ => pure []
  | turns + 1, count =>
    if count = 0 then pure []
    else do
      let block ← readBlock count
      if block = [] then throw (.failed (.io .unexpectedEof))
      let rest ← readExactUpTo turns (count - block.length)
      pure (block ++ rest)

/-- `read_exact`. -/
def readExact (count : ℕ) : Talk Bytes := readExactUpTo count count

/-- What ends a head. -/
def headEnd : Bytes := [13, 10, 13, 10]

/-- `find_headers_end`. -/
def findHeadersEnd : Bytes → Option ℕ
  | [] => none
  | b :: rest =>
    if headEnd.isPrefixOf (b :: rest) then some 4 else (findHeadersEnd rest).map (· + 1)

/-- How large a head may be. -/
def headLimit : ℕ := 64 * 1024

/-- The loop of `read_request_head`, in which every turn reads a byte at least. -/
def readHeadUpTo : ℕ → Bytes → Talk (Text × Bytes)
  | 0, _ => throw (.failed .badRequest)
  | turns + 1, buf => do
    let chunk ← readBlock 1024
    if chunk = [] then throw (.failed .badRequest)
    let buf := buf ++ chunk
    match findHeadersEnd buf with
    | some pos => pure (fromUtf8Lossy (buf.take pos), buf.drop pos)
    | none => if headLimit < buf.length then throw (.failed .badRequest) else readHeadUpTo turns buf

/-- `read_request_head`. -/
def readRequestHead : Talk (Text × Bytes) := readHeadUpTo (headLimit + 1) []

/-- `map_err`. -/
def mapStop {σ α : Type} (f : Stop → Stop) (x : EStateM Stop σ α) : EStateM Stop σ α := fun s =>
  match x s with
  | .ok a t => .ok a t
  | .error e t => .error (f e) t

end Streams

section Proxies

/-- `Credentials`. -/
structure Credentials where
  username : Text
  password : Text
  deriving DecidableEq, Repr

/-- `{host}:{port}`. -/
def authority (host : Text) (port : ℕ) : Text := host ++ ':' :: Nat.toDigits 10 port

/-- The alphabet of `base64`. -/
def base64Alphabet : Text :=
  "ABCDEFGHIJKLMNOPQRSTUVWXYZabcdefghijklmnopqrstuvwxyz0123456789+/".toList

/-- The digit at a place of three bytes. -/
def base64Digit (n place : ℕ) : Char := base64Alphabet.getD (n / 64 ^ place % 64) 'A'

/-- `base64`. -/
def base64 : Bytes → Text
  | [] => []
  | [a] =>
    let n := a.toNat * 65536
    [base64Digit n 3, base64Digit n 2, '=', '=']
  | [a, b] =>
    let n := a.toNat * 65536 + b.toNat * 256
    [base64Digit n 3, base64Digit n 2, base64Digit n 1, '=']
  | a :: b :: c :: rest =>
    let n := a.toNat * 65536 + b.toNat * 256 + c.toNat
    base64Digit n 3 :: base64Digit n 2 :: base64Digit n 1 :: base64Digit n 0 :: base64 rest

example : base64 (utf8 "user:pass") = "dXNlcjpwYXNz".toList ∧
    base64 (utf8 "ab") = "YWI=".toList := by
  decide

/-- `wrong_http`. -/
def wrongHttp : Stop := .failed (.wrongProtocol .http .closedUnanswered)

/-- The request `http_connect` makes. -/
def connectRequest (host : Text) (port : ℕ) (auth : Option Credentials) : Text :=
  "CONNECT ".toList ++ authority host port ++ " HTTP/1.1\r\nHost: ".toList ++ authority host port ++
    newline ++
    (match auth with
      | some c => "Proxy-Authorization: Basic ".toList ++
          base64 (bytesOf (c.username ++ ':' :: c.password)) ++ newline
      | none => []) ++
    "Proxy-Connection: Keep-Alive\r\n\r\n".toList

/-- What the proxy's answer means. -/
def connectAnswer (host : Text) (port : ℕ) (head : Text) : Except Stop Unit :=
  if !"HTTP/".toList.isPrefixOf head then .error (.failed (.wrongProtocol .http .noStatusLine))
  else
    let status := ((words head)[1]?.bind (parseUnsigned 65535)).getD 0
    if 200 ≤ status ∧ status ≤ 299 then .ok ()
    else if status = 407 then .error (.failed .authRejected)
    else .error (.failed (.connectRejected (authority host port) (.status status)))

/-- `http_connect`. -/
def httpConnect (host : Text) (port : ℕ) (auth : Option Credentials) : Talk Unit := do
  mapStop (fun
      | .failed (.io e) => if hungUp e then wrongHttp else .failed (.io e)
      | stop => stop)
    (writeAll (bytesOf (connectRequest host port auth)))
  let (head, _) ← mapStop (fun
      | .failed (.io e) => if hungUp e then wrongHttp else .failed (.io e)
      | .failed .badRequest => wrongHttp
      | stop => stop)
    readRequestHead
  match connectAnswer host port head with
  | .ok () => pure ()
  | .error stop => throw stop

/-- The greeting of `socks5_connect`, and the method the proxy chose. -/
def socksGreet (auth : Option Credentials) : Talk UInt8 := do
  let methods : Bytes := if auth.isSome then [0, 2] else [0]
  writeAll (5 :: .ofNat methods.length :: methods)
  let resp ← mapStop (fun
      | .failed (.io e) =>
        if hungUp e then .failed (.wrongProtocol .socks5 .closedAtGreeting) else .failed (.io e)
      | stop => stop)
    (readExact 2)
  let version := resp.getD 0 0
  if version ≠ 5 then
    throw (.failed (.wrongProtocol .socks5
      (if version = 72 then .answeredInHttp else .answered version)))
  pure (resp.getD 1 0)

/-- What the method asks for. -/
def socksLogin (auth : Option Credentials) (method : UInt8) : Talk Unit :=
  if method = 0 then pure ()
  else if method = 2 then
    match auth with
    | none => throw (.failed .authRejected)
    | some c => do
      let username := bytesOf c.username
      let password := bytesOf c.password
      writeAll (1 :: .ofNat username.length :: username ++ .ofNat password.length :: password)
      let ar ← readExact 2
      if ar.getD 1 0 ≠ 0 then throw (.failed .authRejected)
  else if method = 0xFF ∧ auth.isSome then throw (.failed .noLoginAccepted)
  else throw (.failed .authRejected)

/-- The request, and the kind of address the proxy answers it with. -/
def socksRequest (host : Text) (port : ℕ) : Talk UInt8 := do
  let hostBytes := bytesOf host
  if 255 < hostBytes.length then throw (.failed .badRequest)
  writeAll (5 :: 1 :: 0 :: 3 :: .ofNat hostBytes.length :: hostBytes ++
    [.ofNat (port / 256), .ofNat port])
  let head ← readExact 4
  let code := head.getD 1 0
  if code ≠ 0 then
    throw (.failed (.connectRejected (authority host port) (.socks code)))
  pure (head.getD 3 0)

/-- The address the proxy is bound to, which is read past. -/
def socksSkip (kind : UInt8) : Talk Unit :=
  if kind = 1 then do
    let _ ← readExact (4 + 2)
  else if kind = 3 then do
    let len ← readExact 1
    let _ ← readExact ((len.getD 0 0).toNat + 2)
  else if kind = 4 then do
    let _ ← readExact (16 + 2)
  else throw (.failed .badRequest)

/-- `socks5_connect`. -/
def socks5Connect (host : Text) (port : ℕ) (auth : Option Credentials) : Talk Unit := do
  let method ← socksGreet auth
  socksLogin auth method
  let kind ← socksRequest host port
  socksSkip kind

/-- `handshake`: silence says what the far end is not. -/
def handshake (expected : Protocol) (x : Talk Unit) : Talk Unit :=
  mapStop (fun
    | .waiting => .failed (.wrongProtocol expected .silence)
    | stop => stop) x

end Proxies

end FuryBrowser.RelayStreams
