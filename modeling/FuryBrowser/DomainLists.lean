import FuryBrowser.IpAddress
import FuryBrowser.TextLines

/-!
# Lists of domains

What a profile's lists say of a host: a blocklist refuses a domain and everything below it, a
whitelist refuses everything else, and a list of the local network names what is reached from this
machine, by name or by address.
-/

namespace FuryBrowser.DomainLists

open TextBytes TextLines IpAddress

/-- `Blocklist`. -/
structure Blocklist where
  /-- The domains that are refused. -/
  domains : List Text
  /-- The domains that may be reached, once a whitelist is there. -/
  allowed : Option (List Text)
  /-- The names on the local network. -/
  localNames : List Text
  /-- The addresses and networks on it. -/
  localNets : List (IpAddr × ℕ)
  deriving DecidableEq, Repr

/-- `Blocklist::default`. -/
def Blocklist.empty : Blocklist := ⟨[], none, [], []⟩

section Names

/-- A character of a name. -/
def isNameChar (c : Char) : Bool := c.isAlphanum || c = '.' || c = '-' || c = '_'

/-- `normalise`. -/
def normalise (raw : Text) : Option Text :=
  let trimmed := trimEndMatches '.' (trimText raw)
  let name := (splitAt ':' trimmed).headD trimmed
  if name = [] ∨ '.' ∉ name then none
  else if (parseIp name).isSome then none
  else if name.all isNameChar then some (lowerText name)
  else none

/-- The loop of `matches_or_parent`, which drops a label at a time. -/
def matchesUpTo (set : List Text) : ℕ → Text → Bool
  | 0, _ => false
  | n + 1, rest =>
    if rest ∈ set then true
    else
      match splitOnce '.' rest with
      | some (_, parent) => if parent = [] then false else matchesUpTo set n parent
      | none => false

/-- `matches_or_parent`. -/
def matchesOrParent (set : List Text) (host : Text) : Bool :=
  if set = [] then false else matchesUpTo set (host.length + 1) host

end Names

section Networks

/-- `is_private_network`. -/
def isPrivateNetwork : IpAddr → Bool
  | .v4 a => isPrivate a || isShared a
  | .v6 a =>
    match toIpv4Mapped a with
    | some four => isPrivate four || isShared four
    | none => isUniqueLocal a

/-- The first and the last address of the network of a width with so many leading bits. -/
def boundsOf (width : ℕ) (a : BitVec width) (bits : ℕ) : BitVec width × BitVec width :=
  let mask : BitVec width := if bits = 0 then 0 else BitVec.allOnes width <<< (width - bits)
  (a &&& mask, a &&& mask ||| ~~~mask)

/-- `net_bounds`. -/
def netBounds (ip : IpAddr) (bits : ℕ) : IpAddr × IpAddr :=
  match ip with
  | .v4 a => let (first, last) := boundsOf 32 a bits; (.v4 first, .v4 last)
  | .v6 a => let (first, last) := boundsOf 128 a bits; (.v6 first, .v6 last)

/-- `IpAddr::is_ipv4`. -/
def isIpv4 : IpAddr → Bool
  | .v4 _ => true
  | .v6 _ => false

/-- `in_net`. -/
def inNet (ip net : IpAddr) (bits : ℕ) : Bool :=
  let ip := match ip with
    | .v6 a => ((toIpv4Mapped a).map IpAddr.v4).getD ip
    | .v4 _ => ip
  isIpv4 ip = isIpv4 net && (netBounds ip bits).1 = net

end Networks

section Reading

/-- `ALLOW_ONLY`. -/
def allowOnly : Text := "@allow-only".toList

/-- `LOCAL`. -/
def localMark : Text := "@local".toList

/-- A line that says what kind of list it is. -/
def isDirective (line : Text) : Bool := lowerText line = localMark || lowerText line = allowOnly

/-- The lines that are read: without their comments, and no line that is one. -/
def listLines (text : Text) : List Text :=
  ((lines text).map fun raw => trimText ((splitAt '#' raw).headD [])).filter fun line =>
    line ≠ [] && line.head? ≠ some '!'

/-- `is_address`. -/
def isAddress (text : Text) : Bool := (parseIp text).isSome

/-- What a line of a list offers as a domain. -/
def candidate (line : Text) : Option Text :=
  match stripStart "||".toList line with
  | some rest =>
    match splitOnce '^' rest with
    | some (domain, []) => some domain
    | _ => none
  | none =>
    match words line with
    | first :: name :: _ => if isAddress first then some name else none
    | [first] => some first
    | [] => some []

/-- The domains that the lines of a list name. -/
def domainsOf (read : List Text) : List Text :=
  (read.filter fun line => lowerText line ≠ allowOnly).filterMap fun line =>
    (candidate line).bind normalise

/-- An address and how many of its bits count: all of them where none are given. -/
def addressAndBits (entry : Text) : Option (Text × ℕ) :=
  match splitOnce '/' entry with
  | some (a, b) => (parseUnsigned 255 b).map fun bits => (a, bits)
  | none => some (entry, if ':' ∈ entry then 128 else 32)

/-- `parse_net`. -/
def parseNet (entry : Text) : Option (IpAddr × ℕ) := do
  let (addr, bits) ← addressAndBits entry
  let ip ← parseIp (trimEndMatches ']' (trimStartMatches '[' addr))
  let (first, last) := netBounds ip bits
  if (if isIpv4 ip then 32 else 128) < bits then none
  else if isPrivateNetwork first && isPrivateNetwork last then some (first, bits)
  else none

/-- `looks_like_address`. -/
def looksLikeAddress (entry : Text) : Bool := '/' ∈ entry || ':' ∈ entry || isAddress entry

/-- `parse_local`. -/
def parseLocal (read : List Text) : Blocklist :=
  let entries := (read.filter fun line => !isDirective line).map fun line =>
    (words line).headD []
  { Blocklist.empty with
    localNets := entries.filterMap parseNet
    localNames := entries.filterMap fun entry =>
      if (parseNet entry).isNone && !looksLikeAddress entry then normalise entry else none }

/-- `parse`. -/
def Blocklist.parse (text : Text) : Blocklist :=
  let read := listLines text
  if read.any fun line => lowerText line = localMark then parseLocal read
  else if read.any fun line => lowerText line = allowOnly then
    { Blocklist.empty with allowed := some (domainsOf read) }
  else { Blocklist.empty with domains := domainsOf read }

end Reading

section Queries

variable (list : Blocklist)

/-- `refuses_nothing`. -/
def Blocklist.refusesNothing : Bool := list.domains = [] && list.allowed = none

/-- `is_local`. -/
def Blocklist.isLocal : Bool := list.localNames ≠ [] || list.localNets ≠ []

/-- `reached_locally`. -/
def Blocklist.reachedLocally (host : Text) : Bool :=
  if list.isLocal then
    match parseIp (trimEndMatches ']' (trimStartMatches '[' host)) with
    | some ip => list.localNets.any fun (net, bits) => inNet ip net bits
    | none => ((normalise host).map fun name => decide (name ∈ list.localNames)).getD false
  else false

/-- `blocks`. -/
def Blocklist.blocks (host : Text) : Bool :=
  if list.refusesNothing then false
  else
    match normalise host with
    | none => list.allowed.isSome
    | some name =>
      if (list.allowed.map fun allowed => !matchesOrParent allowed name).getD false then true
      else matchesOrParent list.domains name

example : (Blocklist.mk ["doubleclick.net".toList] none [] []).blocks "ad.DoubleClick.net".toList =
    true ∧ (Blocklist.mk ["doubleclick.net".toList] none [] []).blocks
      "notdoubleclick.net".toList = false := by
  decide

end Queries

end FuryBrowser.DomainLists
