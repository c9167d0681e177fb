import FuryBrowser.Totp

/-!
# One-time codes

A code is computed from the seed, the hash and the time: the digest of the counter picks four of
its own bytes, and the number they make is cut down to so many decimal digits. The power of ten is
computed in 32 bits, and ten digits do not fit.
-/

namespace FuryBrowser.Totp

open AgentDisk TextBytes

/-- The length of a hash's digest. -/
def Algorithm.digestLength : Algorithm → ℕ
  | .sha1 => 20
  | .sha256 => 32
  | .sha512 => 64

/-- HMAC over the three hashes, of a key and a message. -/
structure Hmac where
  mac : Algorithm → Bytes → Bytes → Bytes
  /-- It has the hash's length. -/
  length : ∀ a key message, (mac a key message).length = a.digestLength

/-- `u64::to_be_bytes`. -/
def counterBytes (counter : ℕ) : Bytes :=
  (List.range 8).map fun i => .ofNat (counter / 256 ^ (7 - i))

/-- `u32::from_be_bytes`. -/
def u32FromBe (a b c d : UInt8) : ℕ :=
  ((a.toNat * 256 + b.toNat) * 256 + c.toNat) * 256 + d.toNat

/-- A product in 32 bits: where overflow is checked there is none, elsewhere it wraps. -/
def mul32 (checked : Bool) (a b : ℕ) : Option ℕ :=
  if a * b < 2 ^ 32 then some (a * b) else if checked then none else some (a * b % 2 ^ 32)

/-- `10u32.pow`. -/
def pow10 (checked : Bool) : ℕ → Option ℕ
  | 0 => some 1
  | n + 1 => (pow10 checked n).bind fun p => mul32 checked p 10

/-- `{:0width$}`. -/
def zeroPadded (width n : ℕ) : Text := (Nat.toDigits 10 n).leftpad width '0'

/-- `code_at`: nothing where an index is out of range, a division is by zero or an overflow is
caught. -/
def Totp.codeAt (t : Totp) (lib : Hmac) (checked : Bool) (unixSeconds : ℕ) : Option Text := do
  let counter ← if t.period = 0 then none else some (unixSeconds / t.period)
  let digest := lib.mac t.algorithm t.secret (counterBytes counter)
  let last ← digest[digest.length - 1]?
  let offset := (last &&& 0x0F).toNat
  let a ← digest[offset]?
  let b ← digest[offset + 1]?
  let c ← digest[offset + 2]?
  let d ← digest[offset + 3]?
  let binary := u32FromBe (a &&& 0x7F) b c d
  let modulus ← pow10 checked t.digits
  if modulus = 0 then none else some (zeroPadded t.digits (binary % modulus))

/-- The value of some bytes, the high one first. -/
def bigEndian (bytes : Bytes) : ℕ := bytes.foldl (fun n b => n * 256 + b.toNat) 0

/-- RFC 4226, section 5.3: four bytes from where the last four bits point, without the top bit. -/
def dynamicTruncation (digest : Bytes) : ℕ :=
  bigEndian ((digest.drop ((digest.getLastD 0).toNat % 16)).take 4) % 2 ^ 31

/-- RFC 6238's code of a time, as a number. -/
def Totp.otp (t : Totp) (lib : Hmac) (unixSeconds : ℕ) : ℕ :=
  dynamicTruncation (lib.mac t.algorithm t.secret (counterBytes (unixSeconds / t.period))) %
    10 ^ t.digits

/-- The text is the number in exactly so many decimal digits. -/
structure Prints (text : Text) (digits n : ℕ) : Prop where
  length : text.length = digits
  value : decimalValue text = some n

/-- The code is right, and computing it overflows nowhere. -/
def Totp.Correct (t : Totp) (lib : Hmac) (unixSeconds : ℕ) : Prop :=
  ∀ checked, ∃ code, t.codeAt lib checked unixSeconds = some code ∧
    Prints code t.digits (t.otp lib unixSeconds)

section Printing

theorem zeroPadded_prints {digits n : ℕ} (hpos : 0 < digits) (h : n < 10 ^ digits) :
    Prints (zeroPadded digits n) digits n where
  length := by
    have hle := (Nat.length_toDigits_le_iff (by decide) hpos).mpr h
    rw [zeroPadded, List.leftpad, List.length_append, List.length_replicate]
    omega
  value := by
    have hall : (zeroPadded digits n).all Char.isDigit = true := by
      rw [zeroPadded, List.leftpad, List.all_append, List.all_replicate, Bool.and_eq_true]
      refine ⟨?_, List.all_eq_true.mpr fun _ hc => digits_of_toDigits hc⟩
      split <;> decide
    have hne : zeroPadded digits n ≠ [] := by
      intro hnil
      have hlen := congrArg List.length hnil
      have htoDigits := Nat.length_toDigits_pos (b := 10) (n := n)
      rw [zeroPadded, List.leftpad, List.length_append, List.length_nil] at hlen
      omega
    rw [decimalValue, if_pos ⟨hne, hall⟩, zeroPadded, List.leftpad, Nat.ofDigitChars_append,
      Nat.ofDigitChars_replicate_zero, Nat.mul_zero, Nat.ofDigitChars_ten_toDigits]

end Printing

section Powers

/-- A power of ten that fits is computed. -/
theorem pow10_fits (checked : Bool) {n : ℕ} (h : n ≤ 9) : pow10 checked n = some (10 ^ n) := by
  induction n with
  | zero => rfl
  | succ n ih =>
    have hlt : 10 ^ n * 10 < 2 ^ 32 := by
      rw [← pow_succ]
      calc 10 ^ (n + 1) ≤ 10 ^ 9 := Nat.pow_le_pow_right (by decide) h
        _ < 2 ^ 32 := by decide
    rw [pow10, ih (by omega), Option.bind_some, mul32, if_pos hlt, pow_succ]

theorem pow10_ten : pow10 true 10 = none := by decide

end Powers

section Truncation

theorem u32FromBe_masked (a b c d : UInt8) :
    u32FromBe (a &&& 0x7F) b c d = bigEndian [a, b, c, d] % 2 ^ 31 := by
  have ha : (a &&& 0x7F).toNat = a.toNat % 128 := by
    rw [UInt8.toNat_and]
    exact Nat.and_two_pow_sub_one_eq_mod a.toNat 7
  have hb := b.toNat_lt
  have hc := c.toNat_lt
  have hd := d.toNat_lt
  simp only [u32FromBe, ha, bigEndian, List.foldl_cons, List.foldl_nil]
  omega

theorem offset_eq (last : UInt8) : (last &&& 0x0F).toNat = last.toNat % 16 := by
  rw [UInt8.toNat_and]
  exact Nat.and_two_pow_sub_one_eq_mod last.toNat 4

/-- Every digest is long enough for the four bytes its last four bits point at. -/
theorem digest_reads {digest : Bytes} (h : 20 ≤ digest.length) :
    ∃ last a b c d, digest[digest.length - 1]? = some last ∧
      digest[(last &&& 0x0F).toNat]? = some a ∧ digest[(last &&& 0x0F).toNat + 1]? = some b ∧
      digest[(last &&& 0x0F).toNat + 2]? = some c ∧
      digest[(last &&& 0x0F).toNat + 3]? = some d ∧
      u32FromBe (a &&& 0x7F) b c d = dynamicTruncation digest := by
  have hlast : digest.length - 1 < digest.length := by omega
  have hmod : (digest[digest.length - 1].toNat) % 16 < 16 := Nat.mod_lt _ (by decide)
  have hoffset := offset_eq digest[digest.length - 1]
  have hgetLast : digest.getLastD 0 = digest[digest.length - 1] := by
    rw [List.getLastD_eq_getLast?, List.getLast?_eq_getElem?, List.getElem?_eq_getElem hlast,
      Option.getD_some]
  refine ⟨_, _, _, _, _, List.getElem?_eq_getElem hlast, List.getElem?_eq_getElem (by omega),
    List.getElem?_eq_getElem (by omega), List.getElem?_eq_getElem (by omega),
    List.getElem?_eq_getElem (by omega), ?_⟩
  rw [u32FromBe_masked, dynamicTruncation, hgetLast]
  simp only [hoffset]
  congr 2
  rw [List.drop_eq_getElem_cons (by omega), List.drop_eq_getElem_cons (by omega),
    List.drop_eq_getElem_cons (by omega), List.drop_eq_getElem_cons (by omega)]
  rfl

end Truncation

/-- `code_at` is the number that the digest gives, modulo the power of ten, so padded. -/
theorem codeAt_eq {t : Totp} (hperiod : 1 ≤ t.period) (lib : Hmac) (checked : Bool)
    (unixSeconds : ℕ) :
    t.codeAt lib checked unixSeconds = (pow10 checked t.digits).bind fun modulus =>
      if modulus = 0 then none
      else some (zeroPadded t.digits (dynamicTruncation
        (lib.mac t.algorithm t.secret (counterBytes (unixSeconds / t.period))) % modulus)) := by
  have hlength : 20 ≤
      (lib.mac t.algorithm t.secret (counterBytes (unixSeconds / t.period))).length := by
    rw [lib.length]
    cases t.algorithm <;> decide
  obtain ⟨last, a, b, c, d, hlast, ha, hb, hc, hd, hvalue⟩ := digest_reads hlength
  have hpos : t.period ≠ 0 := by omega
  simp only [Totp.codeAt, if_neg hpos, Option.bind_eq_bind, Option.bind_some, hlast, ha, hb, hc,
    hd, hvalue]

/-- The code of a seed that was read is RFC 6238's at every time, exactly when it has at most
nine digits. -/
theorem correct_iff_nine {input : Text} {t : Totp} (h : parse input = .ok t) (lib : Hmac)
    (unixSeconds : ℕ) : t.Correct lib unixSeconds ↔ t.digits ≤ 9 := by
  obtain ⟨hsix, hten⟩ := parse_digits h
  constructor
  · intro hcorrect
    by_contra hnine
    have hdigits : t.digits = 10 := by omega
    obtain ⟨code, hcode, -⟩ := hcorrect true
    rw [codeAt_eq (parse_period h), hdigits, pow10_ten] at hcode
    cases hcode
  · intro hnine checked
    have hpow : 0 < 10 ^ t.digits := Nat.pow_pos (by decide)
    refine ⟨_, ?_, zeroPadded_prints (by omega) (Nat.mod_lt _ hpow)⟩
    rw [codeAt_eq (parse_period h), pow10_fits checked hnine, Option.bind_some, if_neg (by omega)]
    rfl

/-- HMAC-SHA-1 of the key `1` and the counter 2. -/
def recordedDigest : Bytes :=
  [183, 124, 52, 19, 68, 3, 107, 147, 188, 237, 209, 158, 2, 63, 126, 103, 81, 49, 146, 54]

/-- A library that knows that digest; of others only the length is right. -/
def recorded : Hmac where
  mac a key message :=
    if a = .sha1 ∧ key = [49] ∧ message = counterBytes 2 then recordedDigest
    else List.replicate a.digestLength 0
  length a key message := by
    split
    · rename_i h
      rw [h.1]
      rfl
    · exact List.length_replicate

/-- A seed of eight digits. -/
def eightDigits : Text := "otpauth://totp/a?secret=GE&digits=8".toList

theorem correct_iff_nine_eight :
    ∃ t, parse eightDigits = .ok t ∧ (t.Correct recorded 60 ↔ t.digits ≤ 9) := by
  have hread : parse eightDigits = .ok ⟨[49], 8, 30, .sha1, some ['a'], none⟩ := by
    decide
  exact ⟨_, hread, correct_iff_nine hread recorded 60⟩

/-- A seed of ten digits. -/
def tenDigits : Text := "otpauth://totp/a?secret=GE&digits=10".toList

/-- Ten digits are not RFC 6238's code: even where the overflow goes unnoticed, the number is
another one. -/
theorem ten_digits_wrong :
    ¬ ∀ (input : Text) (t : Totp), parse input = .ok t →
      ∀ (lib : Hmac) (unixSeconds : ℕ), t.Correct lib unixSeconds := by
  intro h
  have hread : parse tenDigits = .ok ⟨[49], 10, 30, .sha1, some ['a'], none⟩ := by
    decide
  obtain ⟨code, hcode, hprints⟩ := h tenDigits _ hread recorded 60 false
  have hwrapped : (Totp.mk [49] 10 30 .sha1 (some ['a']) none).codeAt recorded false 60 =
      some "0394778861".toList := by
    decide
  have hright : (Totp.mk [49] 10 30 .sha1 (some ['a']) none).otp recorded 60 =
      1804844269 := by
    decide
  rw [hwrapped] at hcode
  cases hcode
  have hvalue := hprints.value
  rw [hright] at hvalue
  revert hvalue
  decide

end FuryBrowser.Totp
