import FuryBrowser.BundleUnpack
import FuryBrowser.TextBytes

/-!
# Seeds of one-time codes

A seed arrives as a bare base32 string or as an `otpauth://` link, and is stored as a link, so that
the number of digits, the period and the hash travel with it.
-/

namespace FuryBrowser.Totp

open AgentDisk TextBytes BundleUnpack

/-- `Algorithm`. -/
inductive Algorithm where
  | sha1
  | sha256
  | sha512
  deriving DecidableEq, Repr

/-- `Algorithm::parse`. -/
def Algorithm.parse (text : Text) : Option Algorithm :=
  let name := (text.map Char.toUpper).filter (· ≠ '-')
  if name = "SHA1".toList then some .sha1
  else if name = "SHA256".toList then some .sha256
  else if name = "SHA512".toList then some .sha512
  else none

/-- `Algorithm::as_str`. -/
def Algorithm.asStr : Algorithm → Text
  | .sha1 => "SHA1".toList
  | .sha256 => "SHA256".toList
  | .sha512 => "SHA512".toList

/-- `Totp`. -/
structure Totp where
  secret : Bytes
  /-- How many digits a code has. -/
  digits : ℕ
  /-- How many seconds it is good for. -/
  period : ℕ
  algorithm : Algorithm
  label : Option Text
  issuer : Option Text
  deriving DecidableEq, Repr

/-- `Error`. -/
inductive Error where
  | empty
  | notBase32
  | badUri
  /-- A link that counts logins rather than seconds. -/
  | notTotp
  /-- A link without a secret. -/
  | noSecret
  /-- A slice inside a character, which stops the caller. -/
  | panic
  deriving DecidableEq, Repr

section Base32

/-- The alphabet. -/
def alphabet : List UInt8 := utf8 "ABCDEFGHIJKLMNOPQRSTUVWXYZ234567"

/-- `to_ascii_uppercase` of a byte. -/
def upperByte (b : UInt8) : UInt8 := if 97 ≤ b ∧ b ≤ 122 then b - 32 else b

/-- What is skipped between the digits: blanks, dashes and padding. -/
def isSkipped (b : UInt8) : Bool :=
  b = 32 || b = 45 || b = 61 || b = 10 || b = 13 || b = 9

/-- The loop of `base32_decode`, with its 32-bit accumulator and how many of its bits are due. -/
def base32Bytes (bits nbits : ℕ) : Bytes → Option Bytes
  | [] => some []
  | b :: rest =>
    if isSkipped b then base32Bytes bits nbits rest
    else
      match alphabet.findIdx? (· = upperByte b) with
      | none => none
      | some v =>
        let bits := (bits <<< 5) % 2 ^ 32 ||| v
        if nbits + 5 ≥ 8 then
          (base32Bytes bits (nbits - 3) rest).map (.ofNat (bits >>> (nbits - 3)) :: ·)
        else base32Bytes bits (nbits + 5) rest

/-- `base32_decode`. -/
def base32Decode (text : Text) : Option Bytes :=
  (base32Bytes 0 0 (bytesOf text)).filter (· ≠ [])

/-- The character of five bits. -/
def base32Char (v : ℕ) : Char := .ofNat (alphabet.getD (v % 32) 0).toNat

/-- What the inner loop of `base32_encode` pushes, and how many bits stay. -/
def base32Push (bits : ℕ) : ℕ → Text × ℕ
  | nbits + 5 =>
    let (rest, left) := base32Push bits nbits
    (base32Char (bits >>> nbits) :: rest, left)
  | nbits => ([], nbits)

/-- The loop of `base32_encode`. -/
def base32Chars (bits nbits : ℕ) : Bytes → Text
  | [] => if nbits > 0 then [base32Char ((bits <<< (5 - nbits)) % 2 ^ 32)] else []
  | b :: rest =>
    let bits := (bits <<< 8) % 2 ^ 32 ||| b.toNat
    let (pushed, left) := base32Push bits (nbits + 8)
    pushed ++ base32Chars bits left rest

/-- `base32_encode`. -/
def base32Encode (bytes : Bytes) : Text := base32Chars 0 0 bytes

end Base32

section Percent

/-- The byte continues a character. -/
def isContinuation (b : UInt8) : Bool := 0x80 ≤ b && b < 0xC0

/-- The loop of `percent_decode`. The two digits after a percent sign are sliced out of the text,
which fails inside a character. -/
def percentBytes : Bytes → Except Error Bytes
  | [] => .ok []
  | 0x25 :: hi :: lo :: rest =>
    if (rest.head?.map isContinuation).getD false then .error .panic
    else
      match hexByte hi lo with
      | some b => (percentBytes rest).map (b :: ·)
      | none => (percentBytes (hi :: lo :: rest)).map (0x25 :: ·)
  | b :: rest => (percentBytes rest).map ((if b = 0x2B then 0x20 else b) :: ·)

/-- `percent_decode`. -/
def percentDecode (text : Text) : Except Error Text :=
  (percentBytes (bytesOf text)).map fromUtf8Lossy

/-- The byte stands for itself in a link. -/
def isPlain (b : UInt8) : Bool :=
  (48 ≤ b && b ≤ 57) || (65 ≤ b && b ≤ 90) || (97 ≤ b && b ≤ 122) || b = 45 || b = 95 || b = 46 ||
    b = 126 || b = 64

/-- An upper-case hexadecimal digit. -/
def upperDigit (v : ℕ) : Char := (Nat.digitChar v).toUpper

/-- `percent_encode`. -/
def percentEncode (text : Text) : Text :=
  (bytesOf text).flatMap fun b =>
    if isPlain b then [.ofNat b.toNat]
    else ['%', upperDigit (b.toNat / 16), upperDigit (b.toNat % 16)]

end Percent

section Links

/-- How a link begins. -/
def scheme : Text := "otpauth://".toList

/-- `Totp::from_secret`. -/
def fromSecret (text : Text) : Except Error Totp :=
  match base32Decode text with
  | some secret => .ok ⟨secret, 6, 30, .sha1, none, none⟩
  | none => .error .notBase32

/-- What the loop of `from_uri` collects. -/
structure Query where
  secret : Option Bytes
  digits : ℕ
  period : ℕ
  algorithm : Algorithm
  issuer : Option Text
  deriving DecidableEq, Repr

/-- One pair of the query. -/
def Query.read (query : Query) (pair : Text) : Except Error Query := do
  let (name, value) := (splitOnce '=' pair).getD (pair, [])
  let value ← percentDecode value
  let name := String.ofList (name.map Char.toLower)
  if name = "secret" then return { query with secret := base32Decode value }
  else if name = "digits" then
    return { query with digits := (parseUnsigned (2 ^ 32 - 1) value).getD 6 }
  else if name = "period" then
    return { query with period := (parseUnsigned (2 ^ 64 - 1) value).getD 30 }
  else if name = "algorithm" then
    return { query with algorithm := (Algorithm.parse value).getD .sha1 }
  else if name = "issuer" then return { query with issuer := some value }
  else return query

/-- `Totp::from_uri` of what follows the scheme. -/
def fromUri (rest : Text) : Except Error Totp := do
  let some (kind, rest) := splitOnce '/' rest | throw .badUri
  if kind.map Char.toLower ≠ "totp".toList then throw .notTotp
  let (label, query) := (splitOnce '?' rest).getD (rest, [])
  let query ← ((splitAt '&' query).filter (· ≠ [])).foldlM Query.read ⟨none, 6, 30, .sha1, none⟩
  let label ← percentDecode label
  -- The issuer in the label is the one to trust when the query disagrees.
  let (fromLabel, account) := match splitOnce ':' label with
    | some (issuer, account) => (some (trimText issuer), trimText account)
    | none => (none, label)
  let some secret := query.secret | throw .noSecret
  return {
    secret := secret
    digits := max 6 (min query.digits 10)
    period := max query.period 1
    algorithm := query.algorithm
    label := if account = [] then none else some account
    issuer := fromLabel.orElse fun _ => query.issuer }

/-- `Totp::parse`. -/
def parse (input : Text) : Except Error Totp :=
  let input := trimText input
  if input = [] then .error .empty
  else if scheme.isPrefixOf (input.map Char.toLower) then fromUri (input.drop scheme.length)
  else fromSecret input

/-- `Totp::to_uri`. -/
def Totp.toUri (totp : Totp) : Text :=
  scheme ++ "totp/".toList ++ percentEncode (totp.label.getD "account".toList) ++
    "?secret=".toList ++ base32Encode totp.secret ++ "&algorithm=".toList ++
    totp.algorithm.asStr ++ "&digits=".toList ++ Nat.toDigits 10 totp.digits ++
    "&period=".toList ++ Nat.toDigits 10 totp.period ++
    match totp.issuer with
    | some issuer => "&issuer=".toList ++ percentEncode issuer
    | none => []

example : (parse "jbsw y3dp ehpk 3pxp".toList).map Totp.toUri = .ok
    "otpauth://totp/account?secret=JBSWY3DPEHPK3PXP&algorithm=SHA1&digits=6&period=30".toList := by
  decide

end Links

end FuryBrowser.Totp

/-!
## What a link says of a seed

A link that is read has the kind of a time-based code, a query whose pairs were all read, a label
and a secret; what is made of them is in range.
-/

namespace FuryBrowser.Totp

open AgentDisk TextBytes

/-- The issuer and the account that a label names. -/
def namesIn (label : Text) : Option Text × Text :=
  match splitOnce ':' label with
  | some (issuer, account) => (some (trimText issuer), trimText account)
  | none => (none, label)

/-- What is made of a query, a secret and a label. -/
def made (query : Query) (secret : Bytes) (label : Text) : Totp where
  secret := secret
  digits := max 6 (min query.digits 10)
  period := max query.period 1
  algorithm := query.algorithm
  label := if (namesIn label).2 = [] then none else some (namesIn label).2
  issuer := (namesIn label).1.orElse fun _ => query.issuer

/-- A query without pairs. -/
def Query.initial : Query := ⟨none, 6, 30, .sha1, none⟩

/-- The pairs of a query, read one after the other. -/
def readPairs (query : Text) : Except Error Query :=
  ((splitAt '&' query).filter (· ≠ [])).foldlM Query.read .initial

/-- The label and the query of what follows the kind. -/
def labelAndQuery (after : Text) : Text × Text := (splitOnce '?' after).getD (after, [])

/-- A link that is read. -/
structure LinkRead (rest kind after : Text) (query : Query) (label : Text) : Prop where
  /-- The kind ends at the slash. -/
  split : splitOnce '/' rest = some (kind, after)
  totp : kind.map Char.toLower = "totp".toList
  pairs : readPairs (labelAndQuery after).2 = .ok query
  label : percentDecode (labelAndQuery after).1 = .ok label

theorem fromUri_ok_iff {rest : Text} {t : Totp} :
    fromUri rest = .ok t ↔ ∃ kind after query label secret,
      LinkRead rest kind after query label ∧ query.secret = some secret ∧
        t = made query secret label := by
  constructor
  · intro h
    unfold fromUri at h
    cases hsplit : splitOnce '/' rest with
    | none =>
      rw [hsplit] at h
      cases h
    | some parts =>
      obtain ⟨kind, after⟩ := parts
      rw [hsplit] at h
      simp only [bind, Except.bind] at h
      split at h
      · cases h
      · rename_i hkind
        split at h
        · cases h
        · rename_i query hquery
          split at h
          · cases h
          · rename_i label hlabel
            split at h
            · rename_i secret hsecret
              cases h
              exact ⟨kind, after, query, label, secret,
                ⟨hsplit, not_not.mp hkind, hquery, hlabel⟩, hsecret, rfl⟩
            · cases h
  · rintro ⟨kind, after, query, label, secret, ⟨hsplit, hkind, hquery, hlabel⟩, hsecret, rfl⟩
    unfold readPairs Query.initial labelAndQuery at hquery
    unfold labelAndQuery at hlabel
    unfold fromUri
    rw [hsplit]
    simp only [bind, Except.bind, hkind, ne_eq, not_true, if_false, hquery, hlabel, hsecret]
    rfl

/-- What `parse` returns comes from a bare secret or from a link. -/
theorem parse_ok {input : Text} {t : Totp} (h : parse input = .ok t) :
    (∃ secret, base32Decode (trimText input) = some secret ∧
      t = ⟨secret, 6, 30, .sha1, none, none⟩) ∨
    ∃ kind after query label secret,
      LinkRead ((trimText input).drop scheme.length) kind after query label ∧
        query.secret = some secret ∧ t = made query secret label := by
  simp only [parse] at h
  split at h
  · cases h
  · split at h
    · exact .inr (fromUri_ok_iff.mp h)
    · unfold fromSecret at h
      split at h
      · rename_i secret hsecret
        cases h
        exact .inl ⟨secret, hsecret, rfl⟩
      · cases h

theorem parse_digits {input : Text} {t : Totp} (h : parse input = .ok t) :
    6 ≤ t.digits ∧ t.digits ≤ 10 := by
  rcases parse_ok h with ⟨secret, -, rfl⟩ | ⟨kind, after, query, label, secret, -, -, rfl⟩
  · exact ⟨Nat.le_refl 6, Nat.le_add_right 6 4⟩
  · exact ⟨Nat.le_max_left .., Nat.max_le.mpr ⟨by decide, Nat.min_le_right ..⟩⟩

theorem parse_period {input : Text} {t : Totp} (h : parse input = .ok t) : 1 ≤ t.period := by
  rcases parse_ok h with ⟨secret, -, rfl⟩ | ⟨kind, after, query, label, secret, -, -, rfl⟩
  · exact Nat.le_add_right 1 29
  · exact Nat.le_max_right ..

end FuryBrowser.Totp
