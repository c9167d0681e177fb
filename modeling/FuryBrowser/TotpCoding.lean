import FuryBrowser.BundlePack
import FuryBrowser.TextReading
import FuryBrowser.Totp
import Mathlib.Tactic.IntervalCases

/-!
# What is written into a link is read back

A text is written byte by byte, those that mean something to a link as two digits; a secret is
written five bits a character. Both are read back as they were.
-/

namespace FuryBrowser.Totp

open AgentDisk TextBytes BundleUnpack

section Percent

variable {b : UInt8} {rest : Bytes}

/-- What a byte is written as. -/
def writtenByte (b : UInt8) : Text :=
  if isPlain b then [.ofNat b.toNat]
  else ['%', upperDigit (b.toNat / 16), upperDigit (b.toNat % 16)]

theorem percentEncode_eq (text : Text) : percentEncode text = (bytesOf text).flatMap writtenByte :=
  rfl

/-- A byte that stands for itself is an ASCII character with no meaning in a link. -/
theorem isPlain_spec (h : isPlain b = true) :
    b < 0x80 ∧ b ≠ 0x25 ∧ b ≠ 0x2B ∧ b ≠ 0x26 ∧ b ≠ 0x3F ∧ b ≠ 0x2F ∧ b ≠ 0x3D := by
  have hall : ∀ n < 256, isPlain (.ofNat n) = true → UInt8.ofNat n < 0x80 ∧
      UInt8.ofNat n ≠ 0x25 ∧ UInt8.ofNat n ≠ 0x2B ∧ UInt8.ofNat n ≠ 0x26 ∧ UInt8.ofNat n ≠ 0x3F ∧
      UInt8.ofNat n ≠ 0x2F ∧ UInt8.ofNat n ≠ 0x3D := by
    decide +kernel
  have hb := hall b.toNat b.toNat_lt
  rw [UInt8.ofNat_toNat] at hb
  exact hb h

/-- Two digits are two bytes of text that spell the byte. -/
theorem upperDigits_spell (hi lo : ℕ) (hhi : hi < 16) (hlo : lo < 16) :
    ∃ x y, bytesOf [upperDigit hi, upperDigit lo] = [x, y] ∧
      hexByte x y = some (.ofNat (16 * hi + lo)) := by
  have h : ∀ hi < 16, ∀ lo < 16,
      bytesOf [upperDigit hi, upperDigit lo] =
        [(upperDigit hi).val.toUInt8, (upperDigit lo).val.toUInt8] ∧
      hexByte (upperDigit hi).val.toUInt8 (upperDigit lo).val.toUInt8 =
        some (.ofNat (16 * hi + lo)) := by
    decide
  exact ⟨_, _, h hi hhi lo hlo⟩

theorem percentBytes_other (h : b ≠ 0x25) :
    percentBytes (b :: rest) =
      (percentBytes rest).map ((if b = 0x2B then 0x20 else b) :: ·) := by
  rw [percentBytes]
  rintro hi lo more rfl
  exact absurd rfl h

/-- The bytes do not begin inside a character. -/
def AtCharacter (bytes : Bytes) : Prop := ∀ b ∈ bytes.head?, isContinuation b = false

theorem percentBytes_digits {hi lo : UInt8} (hrest : AtCharacter rest)
    (hbyte : hexByte hi lo = some b) :
    percentBytes (0x25 :: hi :: lo :: rest) = (percentBytes rest).map (b :: ·) := by
  have hcut : ((rest.head?.map isContinuation).getD false) = false := by
    cases rest with
    | nil => rfl
    | cons first more => exact hrest first rfl
  rw [percentBytes, hcut, hbyte]
  rfl

theorem percentBytes_written (hrest : AtCharacter rest) :
    percentBytes (bytesOf (writtenByte b) ++ rest) = (percentBytes rest).map (b :: ·) := by
  rw [writtenByte]
  split
  · rename_i hplain
    obtain ⟨hlow, hpercent, hplus, -⟩ := isPlain_spec hplain
    have hnat : (Char.ofNat b.toNat).toNat = b.toNat := by
      have hlt := UInt8.lt_iff_toNat_lt.mp hlow
      exact TextLines.toNat_ofNat (.inl (Nat.lt_trans hlt (by decide)))
    have hbytes : bytesOf [Char.ofNat b.toNat] = [b] := by
      rw [bytesOf_cons, TextLines.utf8EncodeChar_low (by
        rw [hnat]
        exact UInt8.lt_iff_toNat_lt.mp hlow), hnat, UInt8.ofNat_toNat]
      rfl
    rw [hbytes, List.singleton_append, percentBytes_other hpercent, if_neg hplus]
  · have hb := b.toNat_lt
    obtain ⟨x, y, hxy, hbyte⟩ :=
      upperDigits_spell (b.toNat / 16) (b.toNat % 16) (by omega) (by omega)
    rw [Nat.div_add_mod, UInt8.ofNat_toNat] at hbyte
    have hpercent : bytesOf ['%'] = [0x25] := by decide
    have hsplit : bytesOf ['%', upperDigit (b.toNat / 16), upperDigit (b.toNat % 16)] =
        [0x25, x, y] := by
      rw [show ['%', upperDigit (b.toNat / 16), upperDigit (b.toNat % 16)] =
        ['%'] ++ [upperDigit (b.toNat / 16), upperDigit (b.toNat % 16)] from rfl,
        bytesOf_append, hpercent, hxy]
      rfl
    rw [hsplit]
    exact percentBytes_digits hrest hbyte

/-- What is written begins with an ASCII character. -/
theorem writtenByte_ascii : ∀ c ∈ writtenByte b, c.toNat < 0x80 := by
  have hall : ∀ n < 256, ∀ c ∈ writtenByte (.ofNat n), c.toNat < 0x80 := by
    intro n hn
    apply forall_mem_of_all
    revert n
    decide +kernel
  have hb := hall b.toNat b.toNat_lt
  rwa [UInt8.ofNat_toNat] at hb

theorem atCharacter_ascii {text : Text} (h : ∀ c ∈ text, c.toNat < 0x80) :
    AtCharacter (bytesOf text) := by
  intro b hb
  cases text with
  | nil => cases hb
  | cons c text =>
    have hc := h c List.mem_cons_self
    rw [bytesOf_cons, TextLines.utf8EncodeChar_low hc] at hb
    cases hb
    have hnat : (UInt8.ofNat c.toNat).toNat = c.toNat :=
      UInt8.toNat_ofNat_of_lt' (by simp [UInt8.size]; omega)
    have hlow : ¬ 0x80 ≤ UInt8.ofNat c.toNat := by
      rw [UInt8.le_iff_toNat_le, hnat]
      exact Nat.not_le.mpr hc
    simp [isContinuation, hlow]

theorem percentBytes_encoded (bytes : Bytes) :
    percentBytes (bytesOf (bytes.flatMap writtenByte)) = .ok bytes := by
  induction bytes with
  | nil => rfl
  | cons b rest ih =>
    have hascii : ∀ c ∈ rest.flatMap writtenByte, c.toNat < 0x80 := by
      intro c hc
      obtain ⟨d, -, hin⟩ := List.mem_flatMap.mp hc
      exact writtenByte_ascii c hin
    rw [List.flatMap_cons, bytesOf_append, percentBytes_written (atCharacter_ascii hascii), ih]
    rfl

/-- A text is read back from what was written of it. -/
theorem percentDecode_percentEncode (text : Text) :
    percentDecode (percentEncode text) = .ok text := by
  rw [percentDecode, percentEncode_eq, percentBytes_encoded]
  exact congrArg Except.ok (fromUtf8Lossy_bytesOf text)

end Percent

section Base32

variable {bits nbits v : ℕ} {rest : Text}

/-- Bits shifted up, and lower ones put below them. -/
theorem shifted_or (k : ℕ) (hk : k ≤ 32) (hv : v < 2 ^ k) :
    (bits <<< k) % 2 ^ 32 ||| v = bits * 2 ^ k % 2 ^ 32 + v := by
  have hsplit : (2 : ℕ) ^ 32 = 2 ^ k * 2 ^ (32 - k) := by
    rw [← Nat.pow_add, Nat.add_sub_cancel' hk]
  rw [Nat.shiftLeft_eq, hsplit, Nat.mul_comm bits, Nat.mul_mod_mul_left,
    ← Nat.two_pow_add_eq_or_of_lt hv]

/-- A character of the alphabet is a byte that is found again. -/
theorem base32Char_spec (v : ℕ) :
    ∃ b, String.utf8EncodeChar (base32Char v) = [b] ∧ isSkipped b = false ∧
      alphabet.findIdx? (· = upperByte b) = some (v % 32) := by
  have h : ∀ n < 32, String.utf8EncodeChar (base32Char n) = [alphabet.getD n 0] ∧
      isSkipped (alphabet.getD n 0) = false ∧
      alphabet.findIdx? (· = upperByte (alphabet.getD n 0)) = some n := by
    decide
  have hchar : base32Char v = base32Char (v % 32) := by
    rw [base32Char, base32Char, Nat.mod_mod]
  rw [hchar]
  exact ⟨_, h (v % 32) (Nat.mod_lt _ (by decide))⟩

/-- A character that completes no byte. -/
theorem base32Bytes_more (v : ℕ) (h : nbits < 3) :
    base32Bytes bits nbits (bytesOf (base32Char v :: rest)) =
      base32Bytes (bits * 32 % 4294967296 + v % 32) (nbits + 5) (bytesOf rest) := by
  obtain ⟨b, hb, hskip, hfind⟩ := base32Char_spec v
  have hor : (bits <<< 5) % 2 ^ 32 ||| v % 32 = bits * 32 % 4294967296 + v % 32 :=
    shifted_or 5 (by decide) (Nat.mod_lt v (by decide))
  rw [bytesOf_cons, hb, List.singleton_append, base32Bytes, hskip, hfind]
  simp only [Bool.false_eq_true, if_false, hor]
  rw [if_neg (by omega)]

theorem base32Bytes_byte (v : ℕ) (h : 3 ≤ nbits) :
    base32Bytes bits nbits (bytesOf (base32Char v :: rest)) =
      (base32Bytes (bits * 32 % 4294967296 + v % 32) (nbits - 3) (bytesOf rest)).map
        (.ofNat ((bits * 32 % 4294967296 + v % 32) >>> (nbits - 3)) :: ·) := by
  obtain ⟨b, hb, hskip, hfind⟩ := base32Char_spec v
  have hor : (bits <<< 5) % 2 ^ 32 ||| v % 32 = bits * 32 % 4294967296 + v % 32 :=
    shifted_or 5 (by decide) (Nat.mod_lt v (by decide))
  rw [bytesOf_cons, hb, List.singleton_append, base32Bytes, hskip, hfind]
  simp only [Bool.false_eq_true, if_false, hor]
  rw [if_pos (by omega)]

/-- Two numbers of the same low eight bits are one byte. -/
theorem ofNat_congr {m n : ℕ} (h : m % 256 = n % 256) : UInt8.ofNat m = UInt8.ofNat n := by
  apply UInt8.toNat_inj.mp
  rw [UInt8.toNat_ofNat', UInt8.toNat_ofNat']
  exact h

theorem ofNat_low {n : ℕ} {b : UInt8} (h : n % 256 = b.toNat) : UInt8.ofNat n = b := by
  rw [← UInt8.ofNat_toNat (x := b)]
  have hb := b.toNat_lt
  exact ofNat_congr (by omega)

/-- What the reader of a secret still has to give, when it has `nbits` bits and its writer has
`left` that it did not write yet. -/
def pending (bits nbits ebits left : ℕ) : Bytes :=
  if left = 0 then [] else [.ofNat (bits % 2 ^ nbits * 2 ^ left + ebits % 2 ^ left)]

/-- The last bits are written as one character more. -/
theorem base32Bytes_end {ebits left : ℕ} (hleft : left < 5)
    (hsum : nbits + left = if left = 0 then 0 else 8) :
    base32Bytes bits nbits (bytesOf (base32Chars ebits left [])) =
      some (pending bits nbits ebits left) := by
  rcases Nat.eq_zero_or_pos left with rfl | hpos
  · rfl
  rw [if_neg (by omega)] at hsum
  obtain rfl : nbits = 8 - left := by omega
  rw [base32Chars, if_pos hpos, base32Bytes_byte _ (by omega), pending, if_neg (by omega)]
  have hbyte : UInt8.ofNat ((bits * 32 % 4294967296 +
      (ebits <<< (5 - left)) % 2 ^ 32 % 32) >>> (8 - left - 3)) =
      .ofNat (bits % 2 ^ (8 - left) * 2 ^ left + ebits % 2 ^ left) := by
    apply ofNat_congr
    rw [Nat.shiftRight_eq_div_pow, Nat.shiftLeft_eq]
    interval_cases left <;> norm_num <;> omega
  rw [hbyte]
  rfl

/-- Between two bytes the writer and the reader are in step, or eight bits apart. -/
theorem base32Bytes_chars (bytes : Bytes) (bits nbits ebits left : ℕ) (hleft : left < 5)
    (hsum : nbits + left = if left = 0 then 0 else 8) :
    base32Bytes bits nbits (bytesOf (base32Chars ebits left bytes)) =
      some (pending bits nbits ebits left ++ bytes) := by
  induction bytes generalizing bits nbits ebits left with
  | nil => rw [List.append_nil, base32Bytes_end hleft hsum]
  | cons b rest ih =>
    have hb := b.toNat_lt
    have hor : (ebits <<< 8) % 2 ^ 32 ||| b.toNat = ebits * 256 % 4294967296 + b.toNat :=
      shifted_or 8 (by decide) hb
    rw [base32Chars, hor]
    generalize hnext : ebits * 256 % 4294967296 + b.toNat = next
    -- The writer has as many bits as the reader lacks of a byte; it writes one character or two.
    interval_cases left
    · obtain rfl : nbits = 0 := by simpa using hsum
      simp only [base32Push, List.cons_append, List.nil_append]
      rw [base32Bytes_more _ (by decide), ih _ _ _ _ (by decide) (by decide)]
      simp only [pending, Nat.shiftRight_eq_div_pow]
      norm_num [-UInt8.ofNat_add, -UInt8.ofNat_mul]
      exact ofNat_low (by omega)
    · obtain rfl : nbits = 7 := by simpa using hsum
      simp only [base32Push, List.cons_append, List.nil_append]
      rw [base32Bytes_byte _ (by decide), ih _ _ _ _ (by decide) (by decide)]
      simp only [pending, Nat.shiftRight_eq_div_pow]
      norm_num [-UInt8.ofNat_add, -UInt8.ofNat_mul]
      exact ⟨ofNat_congr (by omega), ofNat_low (by omega)⟩
    · obtain rfl : nbits = 6 := by simpa using hsum
      simp only [base32Push, List.cons_append, List.nil_append]
      rw [base32Bytes_byte _ (by decide), base32Bytes_byte _ (by decide),
        ih _ _ _ _ (by decide) (by decide)]
      simp only [pending, Nat.shiftRight_eq_div_pow]
      norm_num [-UInt8.ofNat_add, -UInt8.ofNat_mul]
      exact ⟨ofNat_congr (by omega), ofNat_low (by omega)⟩
    · obtain rfl : nbits = 5 := by simpa using hsum
      simp only [base32Push, List.cons_append, List.nil_append]
      rw [base32Bytes_byte _ (by decide), base32Bytes_more _ (by decide),
        ih _ _ _ _ (by decide) (by decide)]
      simp only [pending, Nat.shiftRight_eq_div_pow]
      norm_num [-UInt8.ofNat_add, -UInt8.ofNat_mul]
      exact ⟨ofNat_congr (by omega), ofNat_low (by omega)⟩
    · obtain rfl : nbits = 4 := by simpa using hsum
      simp only [base32Push, List.cons_append, List.nil_append]
      rw [base32Bytes_byte _ (by decide), base32Bytes_more _ (by decide),
        ih _ _ _ _ (by decide) (by decide)]
      simp only [pending, Nat.shiftRight_eq_div_pow]
      norm_num [-UInt8.ofNat_add, -UInt8.ofNat_mul]
      exact ⟨ofNat_congr (by omega), ofNat_low (by omega)⟩

/-- A secret is read back from what was written of it. -/
theorem base32Decode_base32Encode {secret : Bytes} (h : secret ≠ []) :
    base32Decode (base32Encode secret) = some secret := by
  have hread := base32Bytes_chars secret 0 0 0 0 (by decide) (by decide)
  rw [base32Decode, base32Encode, hread]
  exact Option.filter_eq_some_iff.mpr ⟨rfl, decide_eq_true h⟩

end Base32

end FuryBrowser.Totp
