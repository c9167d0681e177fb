import FuryBrowser.ProgramRules
import FuryBrowser.TextFields

/-!
# A pasted list of proxies

A line is read in one of the shapes that suppliers hand out: a URL, `host:port`, the four fields
with colons in either order, credentials before or after an at sign, or a row of a table. Where it
cannot be read so, the kind of proxy may stand in front as a word, or the fields may be set apart by
blanks, semicolons or bars.
-/

namespace FuryBrowser.ProxyList

open AgentDisk TextBytes TextLines TextFields

section Proxies

/-- `Shape`. -/
inductive Shape where
  /-- `scheme://host:port`, with or without `user:pass@`. -/
  | url
  | hostPort
  | hostPortUserPass
  /-- `user:pass@host:port` with no scheme. -/
  | atSign
  | userPassHostPort
  /-- `host:port@user:pass`. -/
  | hostPortAtUserPass
  deriving DecidableEq, Repr

/-- `ParsedProxy`. -/
structure ParsedProxy where
  scheme : Text
  host : Text
  port : ℕ
  /-- The login, where there is one. -/
  username : Option Text
  password : Option Text
  /-- The shape that the line was read in. -/
  shape : Shape
  deriving DecidableEq, Repr

/-- `ParseError`, with what its sentence quotes. -/
inductive ParseError where
  | empty
  | header
  /-- A row with another number of fields. -/
  | csvFields
  /-- A host with a blank in it. -/
  | spaceInHost (host : Text)
  /-- Four fields whose last is a port. -/
  | reversed
  /-- Four fields without a port. -/
  | notAPort (field : Text)
  | threeFields
  /-- Another number of fields. -/
  | wrongFieldCount (fields : ℕ)
  /-- A kind that resolves names on this machine. -/
  | socks4
  | badScheme (scheme : Text)
  /-- No colon before the at sign. -/
  | badCredentials
  /-- Nothing before that colon. -/
  | emptyUsername
  /-- No bracket that closes. -/
  | unclosedBracket
  /-- No port after the bracket. -/
  | noPortV6
  | noPort (hostport : Text)
  /-- No host before the port. -/
  | emptyHost
  /-- A port that is no number. -/
  | notANumber (port : Text)
  | zeroPort
  deriving DecidableEq, Repr

end Proxies

section Parts

/-- `Option::ok_or`. -/
def okOr {α : Type} (x : Option α) (e : ParseError) : Except ParseError α :=
  match x with
  | some a => .ok a
  | none => .error e

/-- A field that is a port. -/
def isPort (field : Text) : Bool := (parseUnsigned 65535 field).any (· ≠ 0)

/-- `looks_like_host`. -/
def looksLikeHost (text : Text) : Bool :=
  text ≠ [] && (lowerText text = "localhost".toList ||
    ('.' ∈ text && text.all fun c => c.isAlphanum || c = '.' || c = '-'))

/-- `normalise_scheme`. -/
def normaliseScheme (scheme : Text) : Except ParseError Text :=
  let scheme := lowerText (trimText scheme)
  if scheme = "http".toList then .ok "http".toList
  else if scheme = "https".toList then .ok "https".toList
  else if scheme = "socks5".toList ∨ scheme = "socks5h".toList then .ok "socks5".toList
  else if scheme = "socks4".toList ∨ scheme = "socks4a".toList then .error .socks4
  else .error (.badScheme scheme)

/-- `parse_port`. -/
def parsePort (text : Text) : Except ParseError ℕ := do
  let port ← okOr (parseUnsigned 65535 (trimText text)) (.notANumber text)
  if port = 0 then .error .zeroPort else pure port

/-- `split_at_sign`. -/
def splitAtSign (rest : Text) : Except ParseError (Option Text × Option Text × Text) :=
  match rsplitOnce '@' rest with
  | none => .ok (none, none, rest)
  | some (auth, hostport) => do
    let (user, pass) ← okOr (splitOnce ':' auth) .badCredentials
    if user = [] then .error .emptyUsername else pure (some user, some pass, hostport)

/-- `split_host_port`. -/
def splitHostPort (hostport : Text) : Except ParseError (Text × ℕ) :=
  match stripStart ['['] hostport with
  | some inner => do
    let (host, rest) ← okOr (splitOnce ']' inner) .unclosedBracket
    let port ← okOr (stripStart [':'] rest) .noPortV6
    let port ← parsePort port
    pure (host, port)
  | none => do
    let (host, port) ← okOr (rsplitOnce ':' hostport) (.noPort hostport)
    if host = [] then .error .emptyHost
    else do
      let port ← parsePort port
      pure (host, port)

/-- `split_colons`. -/
def splitColons (line : Text) : Except ParseError (List Text) :=
  if line.head? = some '[' then do
    let (host, port) ← splitHostPort line
    pure [host, Nat.toDigits 10 port]
  else .ok ((splitAt ':' line).map trimText)

end Parts

section Shapes

/-- What stands between a scheme and the rest. -/
def schemeMark : Text := "://".toList

/-- `http`, which a line without a scheme means. -/
def http : Text := "http".toList

/-- The four fields that may follow a scheme: `host:port:user:pass`. -/
def supplierFields (rest : Text) : Option (Text × Text × Text × Text) :=
  if '@' ∉ rest ∧ rest.head? ≠ some '[' then
    match splitUpTo ':' 4 rest with
    | [host, port, user, pass] =>
      if isPort port && host ≠ [] then some (host, port, user, pass) else none
    | _ => none
  else none

/-- A line with a scheme. -/
def parseUrl (scheme rest : Text) : Except ParseError ParsedProxy := do
  let scheme ← normaliseScheme scheme
  match supplierFields rest with
  | some (host, port, user, pass) =>
    let port ← parsePort port
    pure ⟨scheme, host, port, some user, some pass, .url⟩
  | none =>
    let (username, password, hostport) ← splitAtSign rest
    let (host, port) ← splitHostPort hostport
    pure ⟨scheme, host, port, username, password, .url⟩

/-- The four fields with an at sign in the password: `host:port:user:p@ss`. -/
def passwordFields (line : Text) : Option (Text × Text × Text × Text) :=
  match splitUpTo ':' 4 line with
  | [host, port, user, pass] =>
    if '@' ∈ line && looksLikeHost host && isPort port && user ≠ [] && '@' ∉ user && '@' ∈ pass
    then some (host, port, user, pass) else none
  | _ => none

/-- `host:port@user:pass`. -/
def credentialsLast (line : Text) : Option ParsedProxy := do
  let (front, back) ← splitOnce '@' line
  let (host, port) ← (splitHostPort front).toOption
  let (user, pass) ← splitOnce ':' back
  if user = [] then none else some ⟨http, host, port, some user, some pass, .hostPortAtUserPass⟩

/-- A line with an at sign. -/
def parseAtSign (line : Text) : Except ParseError ParsedProxy := do
  let (username, password, hostport) ← splitAtSign line
  match splitHostPort hostport with
  | .ok (host, port) => pure ⟨http, host, port, username, password, .atSign⟩
  | .error e => okOr (credentialsLast line) e

/-- Fields with colons between them. -/
def parseFields (fields : List Text) : Except ParseError ParsedProxy :=
  if (fields.headD []).any isWhiteSpace then .error (.spaceInHost (fields.headD []))
  else
    match fields with
    | [host, port] => do
      let port ← parsePort port
      pure ⟨http, host, port, none, none, .hostPort⟩
    | [a, b, c, d] =>
      match parseUnsigned 65535 b, parseUnsigned 65535 d with
      | some (port + 1), _ => .ok ⟨http, a, port + 1, some c, some d, .hostPortUserPass⟩
      | _, some tail =>
        if tail ≠ 0 ∧ looksLikeHost c = true then
          .ok ⟨http, c, tail, some a, some b, .userPassHostPort⟩
        else .error .reversed
      | _, none => .error (.notAPort b)
    | [_, _, _] => .error .threeFields
    | _ => .error (.wrongFieldCount fields.length)

/-- A line that is no row of a table. -/
def parseShape (line : Text) : Except ParseError ParsedProxy :=
  match splitOnceText schemeMark line with
  | some (scheme, rest) => parseUrl scheme rest
  | none =>
    match passwordFields line with
    | some (host, port, user, pass) => do
      let port ← parsePort port
      pure ⟨http, host, port, some user, some pass, .hostPortUserPass⟩
    | none =>
      if '@' ∈ line then parseAtSign line
      else do
        let fields ← splitColons line
        parseFields fields

end Shapes

section Lines

/-- A row of a table. -/
def isRow (line : Text) : Bool :=
  ',' ∈ line && ':' ∉ line && (splitOnceText schemeMark line).isNone

/-- The names by which the header of a table is known. -/
def headerNames : List Text :=
  ["host".toList, "ip".toList, "address".toList, "server".toList, "proxy".toList]

/-- The row with colons in place of its commas. -/
def readRow (line : Text) : Except ParseError Text :=
  let fields := (splitAt ',' line).map trimText
  if lowerText (fields.headD []) ∈ headerNames then .error .header
  else if fields.length = 2 ∨ fields.length = 4 then .ok (joinWith ':' fields)
  else .error .csvFields

variable (again : Text → Except ParseError ParsedProxy)

/-- `parse_strict`, by what reads the row of a table once more. -/
def parseStrictBy (line : Text) : Except ParseError ParsedProxy :=
  let line := trimText line
  if line = [] then .error .empty
  else if isRow line then do
    let joined ← readRow line
    again joined
  else parseShape line

/-- The kind of proxy as a word in front. -/
def wordReadingBy (line : Text) : Option ParsedProxy := do
  let (head, rest) ← splitOnceAny [' ', '\t', ':'] (trimText line)
  if "//".toList.isPrefixOf rest then none
  else
    match normaliseScheme head, again rest with
    | .ok scheme, .ok p => if p.shape ≠ .url then some { p with scheme, shape := .url } else none
    | _, _ => none

/-- What may set the fields apart, other than a colon. -/
def separators : List Char := [' ', '\t', ';', '|']

/-- The fields with colons between them, where something else sets them apart. -/
def rejoined (line : Text) : Option Text :=
  let line := trimText line
  if (splitOnceText schemeMark line).isNone && '@' ∉ line && line.any (· ∈ separators) then
    some (joinWith ':' ((splitAny separators line).filter (· ≠ [])))
  else none

/-- `parse_line`, by what reads a part of the line once more. -/
def parseLineBy (line : Text) : Except ParseError ParsedProxy :=
  match parseStrictBy again line with
  | .ok p => .ok p
  | .error e =>
    match wordReadingBy again line with
    | some p => .ok p
    | none =>
      match (rejoined line).bind fun joined => (parseStrictBy again joined).toOption with
      | some p => .ok p
      | none => .error e

end Lines

section Reading

/-- `parse_line`, as long as it calls itself no more often. -/
def parseLineUpTo : ℕ → Text → Except ParseError ParsedProxy
  | 0 => fun _ => .error .empty
  | n + 1 => parseLineBy (parseLineUpTo n)

/-- `parse_line`: what is read again is shorter, or has no commas any more. -/
def parseLine (line : Text) : Except ParseError ParsedProxy :=
  parseLineUpTo (weight ',' line + 1) line

/-- `parse_strict`. -/
def parseStrict (line : Text) : Except ParseError ParsedProxy := parseStrictBy parseLine line

example : parseLine "SOCKS5\t1.2.3.4 1080 user pass".toList =
    .ok ⟨"socks5".toList, "1.2.3.4".toList, 1080, some "user".toList, some "pass".toList,
      .url⟩ := by
  decide +kernel

example : parseLine "148.251.5.30:10000@u1:p:w".toList = .ok ⟨"http".toList, "148.251.5.30".toList,
    10000, some "u1".toList, some "p:w".toList, .hostPortAtUserPass⟩ := by
  decide +kernel

end Reading

end FuryBrowser.ProxyList
