import FuryBrowser.ByteFields

/-!
# What a SOCKS5 server reads

The messages of a client, as RFC 1928 and RFC 1929 lay them out: fields behind a byte that says how
long they are, and an address of one of three kinds. A server reads the greeting, the login if it
asked for one, and the request; what comes later does not change what was read.
-/

namespace FuryBrowser.SocksWire

open ByteFields

section Fields

variable {l more b rest : List UInt8}

/-- A field behind its length, and what follows it. -/
def field : List UInt8 → Option (List UInt8 × List UInt8)
  | [] => none
  | n :: rest => if n.toNat ≤ rest.length then some (rest.take n.toNat, rest.drop n.toNat) else none

/-- A field with its length in one byte; a length that does not fit is cut. -/
def fieldOf (b : List UInt8) : List UInt8 := .ofNat b.length :: b

end Fields

section Messages

/-- Where a client wants to go. -/
inductive Address where
  | v4 (octets : List UInt8)
  | name (octets : List UInt8)
  | v6 (octets : List UInt8)
  deriving DecidableEq, Repr

/-- So many bytes. -/
def fixed (n : ℕ) (bytes : List UInt8) : Option (List UInt8 × List UInt8) :=
  if n ≤ bytes.length then some (bytes.take n, bytes.drop n) else none

/-- An address of a kind. -/
def readAddress (kind : UInt8) (bytes : List UInt8) : Option (Address × List UInt8) :=
  if kind = 1 then (fixed 4 bytes).map fun (octets, rest) => (.v4 octets, rest)
  else if kind = 3 then (field bytes).map fun (octets, rest) => (.name octets, rest)
  else if kind = 4 then (fixed 16 bytes).map fun (octets, rest) => (.v6 octets, rest)
  else none

/-- The address and the port of a request to connect. -/
def readRequest : List UInt8 → Option ((Address × ℕ) × List UInt8)
  | 5 :: 1 :: 0 :: kind :: bytes =>
    match readAddress kind bytes with
    | some (address, hi :: lo :: rest) => some ((address, word hi lo), rest)
    | _ => none
  | _ => none

/-- What a server heard of a client. -/
structure Heard where
  methods : Option (List UInt8)
  /-- Its login and its password. -/
  login : Option (List UInt8 × List UInt8)
  target : Option (Address × ℕ)
  /-- What is no whole message yet. -/
  left : List UInt8
  deriving DecidableEq, Repr

/-- What is heard after the methods, or after the login. -/
def heardRequest (methods : List UInt8) (login : Option (List UInt8 × List UInt8))
    (bytes : List UInt8) : Heard :=
  match readRequest bytes with
  | some (target, rest) => ⟨some methods, login, some target, rest⟩
  | none => ⟨some methods, login, none, bytes⟩

end Messages

section Extension

variable {l more rest : List UInt8}

/-- What was heard stays heard. -/
structure Heard.Kept (before after : Heard) : Prop where
  methods : ∀ m ∈ before.methods, m ∈ after.methods
  login : ∀ l ∈ before.login, l ∈ after.login
  target : ∀ a ∈ before.target, a ∈ after.target

@[simp] theorem heardRequest_methods (methods : List UInt8)
    (login : Option (List UInt8 × List UInt8)) (bytes : List UInt8) :
    (heardRequest methods login bytes).methods = some methods := by
  unfold heardRequest
  split <;> rfl

end Extension

end FuryBrowser.SocksWire
