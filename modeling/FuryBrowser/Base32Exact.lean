import FuryBrowser.BitGroups
import FuryBrowser.TotpCoding

/-!
# Base32 loses nothing

The reader of a secret keeps the bits it has in a number of 32 bits and never clears those it has
given away. What it still owes are the lowest of them, so that it reads what the characters spell,
five bits each, however long the text is.
-/

namespace FuryBrowser.Totp

open AgentDisk TextBytes BitGroups

section Standard

/-- What may stand between the characters of a secret. -/
def isSeparator (c : Char) : Bool := c ∈ [' ', '-', '=', '\n', '\r', '\t']

/-- The five bits that a character stands for, in either case. -/
def digitOf (c : Char) : Option ℕ :=
  "ABCDEFGHIJKLMNOPQRSTUVWXYZ234567".toList.findIdx? (· = c.toUpper)

/-- A text of base32 characters, with anything between them that may stand there. -/
def isBase32 (text : Text) : Bool := text.all fun c => isSeparator c || (digitOf c).isSome

/-- The groups of five bits that a text spells. -/
def digits (text : Text) : List ℕ :=
  text.filterMap fun c => if isSeparator c then none else digitOf c

/-- The standard decoding: the groups in a row, cut into octets. -/
def standardDecoding (text : Text) : Bytes := octets ((digits text).flatMap (writeBits 5))

end Standard

section Characters

variable {c : Char} {v : ℕ}

/-- A separator is one byte, which the reader skips. -/
theorem isSeparator_spec (h : isSeparator c = true) :
    ∃ b, String.utf8EncodeChar c = [b] ∧ isSkipped b = true := by
  have hc : c ∈ [' ', '-', '=', '\n', '\r', '\t'] := of_decide_eq_true h
  have hall : ∀ c ∈ [' ', '-', '=', '\n', '\r', '\t'],
      String.utf8EncodeChar c = [c.val.toUInt8] ∧ isSkipped c.val.toUInt8 = true :=
    forall_mem_of_all (by decide)
  exact ⟨_, hall c hc⟩

/-- A character of the alphabet is an ASCII character. -/
theorem digitOf_low (h : digitOf c = some v) : c.toNat < 128 := by
  obtain ⟨hlt, hget, -⟩ := List.findIdx?_eq_some_iff_getElem.mp h
  have hupper : c.toUpper ∈ "ABCDEFGHIJKLMNOPQRSTUVWXYZ234567".toList :=
    of_decide_eq_true hget ▸ List.getElem_mem hlt
  have hall : ∀ d ∈ "ABCDEFGHIJKLMNOPQRSTUVWXYZ234567".toList, d.toNat < 91 :=
    forall_mem_of_all rfl
  have hlow := hall _ hupper
  by_cases hcase : 'a'.val ≤ c.val ∧ c.val ≤ 'z'.val
  · exact Nat.lt_of_le_of_lt (UInt32.le_iff_toNat_le.mp hcase.2) (by decide)
  · have hsame : c.toUpper = c := dif_neg hcase
    rw [hsame] at hlow
    exact Nat.lt_trans hlow (by decide)

/-- A character of the alphabet is one byte, which the reader finds. -/
theorem digitOf_spec (h : digitOf c = some v) :
    v < 32 ∧ ∃ b, String.utf8EncodeChar c = [b] ∧ isSkipped b = false ∧
      alphabet.findIdx? (· = upperByte b) = some v := by
  have hall : ∀ n < 128, ∀ v ∈ digitOf (.ofNat n),
      v < 32 ∧ String.utf8EncodeChar (.ofNat n) = [.ofNat n] ∧ isSkipped (.ofNat n) = false ∧
      alphabet.findIdx? (· = upperByte (.ofNat n)) = some v := by
    decide +kernel
  have hc := hall c.toNat (digitOf_low h) v
  rw [Char.ofNat_toNat] at hc
  obtain ⟨hv, hbyte, hskip, hfind⟩ := hc h
  exact ⟨hv, _, hbyte, hskip, hfind⟩

end Characters

section Reading

variable {c : Char} {bits nbits v : ℕ} {rest : Text}

theorem digits_separator (h : isSeparator c = true) : digits (c :: rest) = digits rest :=
  List.filterMap_cons_none (if_pos h)

theorem digits_digit (h : ¬ isSeparator c = true) (hdigit : digitOf c = some v) :
    digits (c :: rest) = v :: digits rest :=
  List.filterMap_cons_some (by rw [if_neg h, hdigit])

/-- A separator leaves the bits as they are. -/
theorem base32Bytes_separator (h : isSeparator c = true) :
    base32Bytes bits nbits (bytesOf (c :: rest)) = base32Bytes bits nbits (bytesOf rest) := by
  obtain ⟨b, hb, hskip⟩ := isSeparator_spec h
  rw [bytesOf_cons, hb, List.singleton_append, base32Bytes, if_pos hskip]

/-- A character puts its bits below those there are. -/
theorem base32Bytes_digit (h : digitOf c = some v) :
    base32Bytes bits nbits (bytesOf (c :: rest)) =
      if nbits + 5 ≥ 8 then
        (base32Bytes (bits * 2 ^ 5 % 2 ^ 32 + v) (nbits - 3) (bytesOf rest)).map
          (.ofNat ((bits * 2 ^ 5 % 2 ^ 32 + v) >>> (nbits - 3)) :: ·)
      else base32Bytes (bits * 2 ^ 5 % 2 ^ 32 + v) (nbits + 5) (bytesOf rest) := by
  obtain ⟨hv, b, hb, hskip, hfind⟩ := digitOf_spec h
  rw [bytesOf_cons, hb, List.singleton_append, base32Bytes, hskip, hfind]
  simp only [Bool.false_eq_true, if_false, shifted_or 5 (by decide) hv]

/-- The low bits after a character are those before it and its own. -/
theorem writeBits_digit (hbits : nbits < 8) (hv : v < 32) :
    writeBits (nbits + 5) (bits * 2 ^ 5 % 2 ^ 32 + v) = writeBits nbits bits ++ writeBits 5 v := by
  have hsum : (bits * 2 ^ 5 % 2 ^ 32 + v) = (bits % 2 ^ 27) * 2 ^ 5 + v := by omega
  rw [hsum, writeBits_below nbits 5 _ hv, writeBits_mod (by omega)]

/-- The reader gives the octets of the bits it has and of those it reads: the induction is on the
text, and of its number only the low `nbits` bits count. -/
theorem base32Bytes_octets {text : Text} (h : isBase32 text = true) (hbits : nbits < 8) :
    base32Bytes bits nbits (bytesOf text) =
      some (octets (writeBits nbits bits ++ (digits text).flatMap (writeBits 5))) := by
  induction text generalizing bits nbits with
  | nil =>
    rw [digits, List.filterMap_nil, List.flatMap_nil, List.append_nil,
      octets_short (by simpa using hbits)]
    rfl
  | cons c rest ih =>
    rw [isBase32, List.all_cons, Bool.and_eq_true, Bool.or_eq_true] at h
    obtain ⟨hc, hrest⟩ := h
    by_cases hsep : isSeparator c = true
    · rw [base32Bytes_separator hsep, ih hrest hbits, digits_separator hsep]
    · obtain ⟨v, hdigit⟩ := Option.isSome_iff_exists.mp (hc.resolve_left hsep)
      have hv := (digitOf_spec hdigit).1
      rw [digits_digit hsep hdigit, List.flatMap_cons,
        ← List.append_assoc, ← writeBits_digit hbits hv, base32Bytes_digit hdigit]
      split
      · rename_i hfull
        have hsplit : nbits + 5 = 8 + (nbits - 3) := by omega
        rw [ih hrest (by omega), hsplit, writeBits_append, List.append_assoc, octets_writeBits]
        rfl
      · rw [ih hrest (by omega)]

/-- A text of base32 characters is read as it stands, except that no bytes at all are no secret. -/
theorem base32Decode_standard {text : Text} (h : isBase32 text = true) :
    base32Decode text =
      if standardDecoding text = [] then none else some (standardDecoding text) := by
  rw [base32Decode, base32Bytes_octets h (by decide), writeBits, List.nil_append]
  split
  · rename_i hnone
    rw [← standardDecoding, hnone]
    rfl
  · rename_i hsome
    exact Option.filter_eq_some_iff.mpr ⟨rfl, decide_eq_true hsome⟩

/-- What is written is read back, and a text of base32 characters, in either case and with blanks,
dashes and padding between them, is read as the standard has it unless it spells no byte. -/
theorem base32_lossless :
    (∀ secret : Bytes, secret ≠ [] → base32Decode (base32Encode secret) = some secret) ∧
      ∀ text : Text, isBase32 text = true →
        base32Decode text =
          if standardDecoding text = [] then none else some (standardDecoding text) :=
  ⟨fun _ h => base32Decode_base32Encode h, fun _ h => base32Decode_standard h⟩

/-- Both halves have something to say. -/
theorem base32_lossless_spoken :
    base32Decode (base32Encode [0x48, 0x69]) = some [0x48, 0x69] ∧
      base32Decode ['j', '-', 'B', '='] = some [0x48] := by
  refine ⟨base32_lossless.1 _ (by decide), ?_⟩
  have hspelt : standardDecoding ['j', '-', 'B', '='] = [0x48] := rfl
  rw [base32_lossless.2 ['j', '-', 'B', '='] rfl, hspelt]
  rfl

/-- A lone character spells no byte, and is refused rather than read as none. -/
theorem lone_character_refused :
    isBase32 ['A'] = true ∧ base32Decode ['A'] ≠ some (standardDecoding ['A']) := by
  have hnone : base32Decode ['A'] = none := rfl
  rw [hnone]
  exact ⟨rfl, (Option.some_ne_none _).symm⟩

end Reading

end FuryBrowser.Totp
