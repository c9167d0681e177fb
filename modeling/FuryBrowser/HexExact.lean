import FuryBrowser.BundlePack
import FuryBrowser.TextLines
import FuryBrowser.TextSlices
import FuryBrowser.Totp
import Mathlib.Data.List.Induction

/-!
# Readers of hexadecimal

The API's types, the upload of a profile and the key of a bundle each read pairs of digits that
they slice out of a text. A slice past the end, or one that ends inside a character, stops the
caller instead of being refused.
-/

namespace FuryBrowser.PastedText

open AgentDisk TextBytes TextSlices BundleUnpack BundlePack
open Totp (isContinuation)

section Readers

/-- Why a reader gives no bytes. -/
inductive Fault where
  | notHex
  /-- There are too many bytes or too few. -/
  | badLength
  /-- A slice that is none, which stops the caller. -/
  | panic
  deriving DecidableEq, Repr

/-- `u8::from_str_radix(&s[i..i + 2], 16)` for every second `i`, up to the first that fails. A pair
begins where the one before it ended, so only its end can fall inside a character. -/
def hexPairs : Bytes → Except Fault Bytes
  | [] => .ok []
  | [_] => .error .panic
  | hi :: lo :: rest =>
    if (rest.head?.map isContinuation).getD false then .error .panic
    else
      match hexByte hi lo with
      | some b => (hexPairs rest).map (b :: ·)
      | none => .error .notHex

/-- `hex_bytes::unhex`. -/
def unhexBytes (s : Text) : Except Fault Bytes :=
  if (bytesOf s).length % 2 ≠ 0 then .error .badLength else hexPairs (bytesOf s)

/-- `raw` of `profile.uploadTo`. -/
def uploadRaw (keyHex : Text) : Except Fault Bytes := hexPairs (bytesOf keyHex)

/-- The key of `profile.uploadTo`. -/
def uploadKey (keyHex : Text) : Except Fault Key := do
  let raw ← uploadRaw keyHex
  if raw.length ≠ 32 then throw .badLength
  return raw

/-- What `profile.uploadTo` answers where it refuses. -/
def uploadMessage : Fault → Option String
  | .notHex => some "the profile key is not hex"
  | .badLength => some "the profile key is not 32 bytes"
  | .panic => none

/-- `unhex` of a bundle's key. -/
def unhexKey (s : Text) : Except Fault Key :=
  if (bytesOf s).length ≠ 64 then .error .badLength else hexPairs (bytesOf s)

end Readers

section Bytes

variable {hi lo : UInt8} {rest bytes : Bytes}

theorem isContinuation_iff {b : UInt8} : isContinuation b = true ↔ Continues b := by
  simp [isContinuation, Continues]

/-- The second byte of a pair is followed by the rest of its character. -/
theorem cut_iff : (rest.head?.map isContinuation).getD false = true ↔
    ∃ b ∈ rest.head?, Continues b := by
  cases rest with
  | nil => simp
  | cons b more => simp [isContinuation_iff]

theorem hexDigit_low {b : UInt8} {n : ℕ} (h : hexDigit b = some n) : b < 0x80 ∧ n < 16 := by
  have hall : ∀ k < 256, ∀ n, hexDigit (.ofNat k) = some n → UInt8.ofNat k < 0x80 ∧ n < 16 := by
    decide +kernel
  have hb := hall b.toNat b.toNat_lt n
  rw [UInt8.ofNat_toNat] at hb
  exact hb h

theorem hexByte_low {b : UInt8} (h : hexByte hi lo = some b) : hi < 0x80 ∧ lo < 0x80 := by
  unfold hexByte at h
  split at h
  · rename_i hsign
    obtain ⟨l, hl, -⟩ := Option.map_eq_some_iff.mp h
    exact ⟨by rw [hsign]; decide, (hexDigit_low hl).1⟩
  · obtain ⟨h', hh, hrest⟩ := Option.bind_eq_some_iff.mp h
    obtain ⟨l, hl, -⟩ := Option.bind_eq_some_iff.mp hrest
    exact ⟨(hexDigit_low hh).1, (hexDigit_low hl).1⟩

end Bytes

section Texts

/-- `u8::is_ascii_hexdigit`. -/
def isHexDigit (c : Char) : Bool :=
  ('0' ≤ c && c ≤ '9') || ('a' ≤ c && c ≤ 'f') || ('A' ≤ c && c ≤ 'F')

/-- Two characters that `from_str_radix` reads as a number: a leading `+` is a sign to it. -/
def ReadsAsByte (c d : Char) : Prop := (c = '+' ∨ isHexDigit c = true) ∧ isHexDigit d = true

/-- A digit's byte is read as its value, which is written as the digit. -/
theorem hexDigit_char {c : Char} (h : c.toNat < 0x80) :
    if isHexDigit c then ∃ n, hexDigit (.ofNat c.toNat) = some n ∧ n < 16 ∧
      Nat.digitChar n = c.toLower
    else hexDigit (.ofNat c.toNat) = none := by
  have hall : ∀ k < 0x80, if isHexDigit (.ofNat k) then
      ∃ n < 16, hexDigit (.ofNat k) = some n ∧ Nat.digitChar n = (Char.ofNat k).toLower
      else hexDigit (.ofNat k) = none := by
    decide
  have hc := hall c.toNat h
  rw [Char.ofNat_toNat] at hc
  split at hc
  · rename_i hdigit
    obtain ⟨n, hn, hread, hwritten⟩ := hc
    rw [if_pos hdigit]
    exact ⟨n, hread, hn, hwritten⟩
  · rename_i hdigit
    rwa [if_neg hdigit]

/-- Only digits are written as a digit. -/
theorem isHexDigit_of_toLower {c : Char} {n : ℕ} (hn : n < 16) (h : c.toLower = Nat.digitChar n) :
    isHexDigit c = true := by
  have hascii : ∀ n < 16, (Nat.digitChar n).toNat < 0x80 := by decide
  have hlow : c.toNat < 0x80 := by
    have hnat := TextLines.toNat_toLower c
    have hdigit := hascii n hn
    rw [h] at hnat
    split at hnat <;> omega
  have hall : ∀ k < 0x80, ∀ n < 16, (Char.ofNat k).toLower = Nat.digitChar n →
      isHexDigit (.ofNat k) = true := by
    decide
  have hc := hall c.toNat hlow n hn
  rw [Char.ofNat_toNat] at hc
  exact hc h

theorem isHexDigit_low {c : Char} (h : isHexDigit c = true) : c.toNat < 0x80 := by
  have hle {a b : Char} : a ≤ b ↔ a.toNat ≤ b.toNat := UInt32.le_iff_toNat_le
  simp only [isHexDigit, Bool.or_eq_true, Bool.and_eq_true, decide_eq_true_eq, hle] at h
  simp at h
  omega

end Texts

end FuryBrowser.PastedText

/-!
## Which texts the readers of hexadecimal give bytes for

A reader stops the caller where it comes to a slice that is none, with everything before it read.
It gives bytes for pairs of digits, and for pairs whose first character is a plus sign.
-/

namespace FuryBrowser.PastedText

open AgentDisk TextBytes TextLines TextSlices BundleUnpack BundlePack
open Totp (isContinuation)

/-- Pairs that are all read. -/
inductive PairsOnly : Text → Prop where
  | nil : PairsOnly []
  /-- A pair, and more of them. -/
  | cons {c d : Char} {rest : Text} (h : ReadsAsByte c d) (hrest : PairsOnly rest) :
    PairsOnly (c :: d :: rest)

/-- Pairs that are read lead to a slice that is none. -/
inductive KeyCuts : Text → Prop where
  /-- It would end behind the text. -/
  | single {c : Char} (h : c.utf8Size = 1) : KeyCuts [c]
  /-- It ends inside a character. -/
  | inside {text : Text} (h : endsInside 2 text = true) : KeyCuts text
  /-- A pair is read before it. -/
  | cons {c d : Char} {rest : Text} (h : ReadsAsByte c d) (hrest : KeyCuts rest) :
    KeyCuts (c :: d :: rest)

/-- An even number of ASCII hexadecimal digits. -/
structure EvenDigits (text : Text) : Prop where
  even : text.length % 2 = 0
  digits : ∀ c ∈ text, isHexDigit c = true

/-- A reader of the texts of some lengths is what it is meant to be on a text: it stops nobody,
gives bytes for an even number of digits only, and gives those that are written so. -/
structure Exact (read : Text → Except Fault Bytes) (sized : ℕ → Prop) (text : Text) : Prop where
  stays : read text ≠ .error .panic
  /-- It has bytes exactly for digits. -/
  value : (∃ b, read text = .ok b) ↔ EvenDigits text ∧ sized text.length
  /-- They are the ones that `hex` writes so. -/
  inverse : ∀ b, read text = .ok b ↔ sized text.length ∧ (hex b).toList = lowerText text

section Pairs

variable {c d : Char} {rest : Text}

/-- Only a plus sign is the byte of one. -/
theorem ofNat_ne_sign (hlow : c.toNat < 0x80) (h : c ≠ '+') : UInt8.ofNat c.toNat ≠ 43 := by
  intro heq
  have hnat : (UInt8.ofNat c.toNat).toNat = c.toNat :=
    UInt8.toNat_ofNat_of_lt' (by simp [UInt8.size]; omega)
  rw [heq] at hnat
  apply h
  rw [← Char.ofNat_toNat c, ← hnat]
  rfl

/-- A pair of digits is read as the byte that is written so. -/
theorem hexByte_digits (hc : isHexDigit c = true) (hd : isHexDigit d = true) :
    ∃ b, hexByte (.ofNat c.toNat) (.ofNat d.toNat) = some b ∧
      [Nat.digitChar (b.toNat / 16), Nat.digitChar (b.toNat % 16)] = [c.toLower, d.toLower] := by
  have hread := hexDigit_char (isHexDigit_low hc)
  have hread' := hexDigit_char (isHexDigit_low hd)
  rw [if_pos hc] at hread
  rw [if_pos hd] at hread'
  obtain ⟨hi, hhi, hhi16, hclower⟩ := hread
  obtain ⟨lo, hlo, hlo16, hdlower⟩ := hread'
  have hsign : UInt8.ofNat c.toNat ≠ 43 := by
    apply ofNat_ne_sign (isHexDigit_low hc)
    rintro rfl
    cases hc
  have hnat : (UInt8.ofNat (16 * hi + lo)).toNat = 16 * hi + lo :=
    UInt8.toNat_ofNat_of_lt' (by simp [UInt8.size]; omega)
  refine ⟨.ofNat (16 * hi + lo), ?_, ?_⟩
  · rw [hexByte, if_neg hsign, hhi, hlo]
    rfl
  · rw [hnat, ← hclower, ← hdlower]
    have hdiv : (16 * hi + lo) / 16 = hi := by omega
    have hmod : (16 * hi + lo) % 16 = lo := by omega
    rw [hdiv, hmod]

/-- A pair of characters of one byte is read exactly when it is a number. -/
theorem hexByte_reads (hc : c.utf8Size = 1) (hd : d.utf8Size = 1) :
    (∃ b, hexByte (.ofNat c.toNat) (.ofNat d.toNat) = some b) ↔ ReadsAsByte c d := by
  have hread := hexDigit_char (utf8Size_eq_one.mp hc)
  have hread' := hexDigit_char (utf8Size_eq_one.mp hd)
  by_cases hdd : isHexDigit d = true
  · by_cases hcc : isHexDigit c = true
    · obtain ⟨b, hb, -⟩ := hexByte_digits hcc hdd
      exact iff_of_true ⟨b, hb⟩ ⟨.inr hcc, hdd⟩
    · rw [if_neg hcc] at hread
      rw [if_pos hdd] at hread'
      obtain ⟨lo, hlo, -, -⟩ := hread'
      by_cases hplus : c = '+'
      · subst hplus
        have hsign (b : UInt8) : hexByte (.ofNat '+'.toNat) b = (hexDigit b).map .ofNat :=
          if_pos rfl
        refine iff_of_true ⟨.ofNat lo, ?_⟩ ⟨.inl rfl, hdd⟩
        rw [hsign, hlo]
        rfl
      · refine iff_of_false ?_ fun h => h.1.elim hplus hcc
        rintro ⟨b, hb⟩
        rw [hexByte, if_neg (ofNat_ne_sign (utf8Size_eq_one.mp hc) hplus), hread] at hb
        cases hb
  · refine iff_of_false ?_ fun h => hdd h.2
    rw [if_neg hdd] at hread'
    rintro ⟨b, hb⟩
    rw [hexByte, hread'] at hb
    split at hb
    · cases hb
    · obtain ⟨_, _, hrest⟩ := Option.bind_eq_some_iff.mp hb
      cases hrest

end Pairs

section Raw

variable {c d : Char} {text rest : Text}

/-- A slice of two bytes that ends inside a character stops the reader. -/
theorem uploadRaw_inside (h : endsInside 2 text = true) : uploadRaw text = .error .panic := by
  obtain ⟨b, hb, hcont⟩ := (endsInside_iff 2 text).mp h
  rw [uploadRaw]
  rcases hbytes : bytesOf text with _ | ⟨hi, _ | ⟨lo, more⟩⟩
  · rw [hbytes] at hb
    cases hb
  · rw [hbytes] at hb
    cases hb
  · rw [hbytes] at hb
    have hcut : (more.head?.map isContinuation).getD false = true := cut_iff.mpr ⟨b, hb, hcont⟩
    rw [hexPairs, if_pos hcut]

theorem uploadRaw_single (h : c.utf8Size = 1) : uploadRaw [c] = .error .panic := by
  rw [uploadRaw, bytesOf_cons, utf8EncodeChar_one h]
  rfl

/-- What follows two bytes of whole characters does not begin inside one. -/
theorem not_cut (rest : Text) : ¬((bytesOf rest).head?.map isContinuation).getD false = true := by
  intro h
  obtain ⟨b, hb, hcont⟩ := cut_iff.mp h
  exact bytesOf_head hb hcont

/-- A character of two bytes is no number. -/
theorem uploadRaw_wide (h : c.utf8Size = 2) : uploadRaw (c :: rest) = .error .notHex := by
  obtain ⟨lead, more, henc, -, hmore, hsize⟩ := utf8EncodeChar_shape c
  obtain ⟨lo, rfl⟩ : ∃ lo, more = [lo] := List.length_eq_one_iff.mp (by omega)
  have hnone : hexByte lead lo = none := by
    rw [Option.eq_none_iff_forall_ne_some]
    intro b hb
    have hlow := (hexByte_low hb).2
    have hcont := hmore lo List.mem_cons_self
    exact UInt8.lt_irrefl _ (UInt8.lt_of_lt_of_le hlow hcont.1)
  rw [uploadRaw, bytesOf_cons, henc, List.cons_append, List.cons_append, List.nil_append, hexPairs,
    if_neg (not_cut rest), hnone]

/-- Two characters of a byte each are read as a pair. -/
theorem uploadRaw_pair (hc : c.utf8Size = 1) (hd : d.utf8Size = 1) :
    uploadRaw (c :: d :: rest) =
      match hexByte (.ofNat c.toNat) (.ofNat d.toNat) with
      | some b => (uploadRaw rest).map (b :: ·)
      | none => .error .notHex := by
  rw [uploadRaw, bytesOf_cons, bytesOf_cons, utf8EncodeChar_one hc, utf8EncodeChar_one hd,
    List.singleton_append, List.singleton_append, hexPairs, if_neg (not_cut rest)]
  rfl

/-- A pair that is read leaves the rest to be read. -/
theorem uploadRaw_reads (hc : c.utf8Size = 1) (hd : d.utf8Size = 1) (h : ReadsAsByte c d) :
    ∃ b, hexByte (.ofNat c.toNat) (.ofNat d.toNat) = some b ∧
      uploadRaw (c :: d :: rest) = (uploadRaw rest).map (b :: ·) := by
  obtain ⟨b, hb⟩ := (hexByte_reads hc hd).mpr h
  refine ⟨b, hb, ?_⟩
  rw [uploadRaw_pair hc hd, hb]

theorem uploadRaw_refuses (hc : c.utf8Size = 1) (hd : d.utf8Size = 1) (h : ¬ReadsAsByte c d) :
    uploadRaw (c :: d :: rest) = .error .notHex := by
  have hnone : hexByte (.ofNat c.toNat) (.ofNat d.toNat) = none := by
    rw [Option.eq_none_iff_forall_ne_some]
    exact fun b hb => h ((hexByte_reads hc hd).mp ⟨b, hb⟩)
  rw [uploadRaw_pair hc hd, hnone]

/-- What a pair is made of has a byte each. -/
theorem ReadsAsByte.sizes (h : ReadsAsByte c d) : c.utf8Size = 1 ∧ d.utf8Size = 1 := by
  refine ⟨?_, utf8Size_eq_one.mpr (isHexDigit_low h.2)⟩
  rcases h.1 with rfl | hc
  · rfl
  · exact utf8Size_eq_one.mpr (isHexDigit_low hc)

/-- A pair that is read leaves what becomes of the rest as it is. -/
theorem uploadRaw_cons (h : ReadsAsByte c d) (rest : Text) :
    ∃ b, uploadRaw (c :: d :: rest) = (uploadRaw rest).map (b :: ·) := by
  obtain ⟨b, -, hb⟩ := uploadRaw_reads h.sizes.1 h.sizes.2 h
  exact ⟨b, hb⟩

/-- The reader stops its caller, gives bytes for pairs or refuses a pair. -/
theorem uploadRaw_outcome (text : Text) :
    uploadRaw text = .error .panic ∧ KeyCuts text ∨
      (∃ b, uploadRaw text = .ok b) ∧ PairsOnly text ∨ uploadRaw text = .error .notHex := by
  induction text using List.twoStepInduction with
  | nil => exact .inr (.inl ⟨⟨[], rfl⟩, .nil⟩)
  | singleton c =>
    cases front [c] with
    | single hc => exact .inl ⟨uploadRaw_single hc, .single hc⟩
    | inside hin => exact .inl ⟨uploadRaw_inside hin, .inside hin⟩
    | wide hc => exact .inr (.inr (uploadRaw_wide hc))
  | cons_cons c d rest ih _ =>
    cases front (c :: d :: rest) with
    | inside hin => exact .inl ⟨uploadRaw_inside hin, .inside hin⟩
    | wide hc => exact .inr (.inr (uploadRaw_wide hc))
    | pair hc hd =>
      by_cases hreads : ReadsAsByte c d
      · obtain ⟨b, hb⟩ := uploadRaw_cons hreads rest
        rw [hb]
        rcases ih with ⟨hrest, hcuts⟩ | ⟨⟨out, hrest⟩, hpairs⟩ | hrest
        · exact .inl ⟨by rw [hrest]; rfl, .cons hreads hcuts⟩
        · exact .inr (.inl ⟨⟨b :: out, by rw [hrest]; rfl⟩, .cons hreads hpairs⟩)
        · exact .inr (.inr (by rw [hrest]; rfl))
      · exact .inr (.inr (uploadRaw_refuses hc hd hreads))

/-- The reader stops its caller exactly where pairs that are read lead to a slice that is none. -/
theorem uploadRaw_panic_iff (text : Text) : uploadRaw text = .error .panic ↔ KeyCuts text := by
  constructor
  · intro h
    rcases uploadRaw_outcome text with ⟨-, hcuts⟩ | ⟨⟨b, hb⟩, -⟩ | hnot
    · exact hcuts
    · rw [h] at hb
      cases hb
    · rw [h] at hnot
      cases hnot
  · intro h
    induction h with
    | single hc => exact uploadRaw_single hc
    | inside hin => exact uploadRaw_inside hin
    | cons hreads _ ih =>
      obtain ⟨b, hb⟩ := uploadRaw_cons hreads _
      rw [hb, ih]
      rfl

/-- The reader gives bytes exactly for pairs that are read. -/
theorem uploadRaw_ok_iff (text : Text) : (∃ b, uploadRaw text = .ok b) ↔ PairsOnly text := by
  constructor
  · rintro ⟨out, h⟩
    rcases uploadRaw_outcome text with ⟨hpanic, -⟩ | ⟨-, hpairs⟩ | hnot
    · rw [h] at hpanic
      cases hpanic
    · exact hpairs
    · rw [h] at hnot
      cases hnot
  · intro h
    induction h with
    | nil => exact ⟨[], rfl⟩
    | cons hreads _ ih =>
      obtain ⟨out, hout⟩ := ih
      obtain ⟨b, hb⟩ := uploadRaw_cons hreads _
      exact ⟨b :: out, by rw [hb, hout]; rfl⟩

end Raw

section Values

variable {c d : Char} {text rest : Text} {out : Bytes}

/-- Each pair is a byte, and each of its characters too. -/
theorem uploadRaw_lengths (h : uploadRaw text = .ok out) :
    text.length = 2 * out.length ∧ (bytesOf text).length = text.length := by
  have hpairs := (uploadRaw_ok_iff text).mp ⟨out, h⟩
  induction hpairs generalizing out with
  | nil =>
    cases h
    exact ⟨rfl, rfl⟩
  | @cons c d rest hreads _ ih =>
    obtain ⟨b, hb⟩ := uploadRaw_cons hreads rest
    obtain ⟨hc, hd⟩ := hreads.sizes
    rw [hb] at h
    cases hrest : uploadRaw rest with
    | error e =>
      rw [hrest] at h
      cases h
    | ok more =>
      rw [hrest] at h
      cases h
      obtain ⟨hchars, hbytes⟩ := ih hrest
      rw [bytesOf_cons, bytesOf_cons, utf8EncodeChar_one hc, utf8EncodeChar_one hd]
      simp only [List.length_cons, List.length_append, List.length_nil]
      omega

theorem hex_cons (b : UInt8) (bytes : Bytes) : (hex (b :: bytes)).toList =
    [Nat.digitChar (b.toNat / 16), Nat.digitChar (b.toNat % 16)] ++ (hex bytes).toList := by
  simp [hex]

/-- An even number of digits is made of pairs. -/
theorem EvenDigits.tail (h : EvenDigits (c :: d :: rest)) :
    isHexDigit c = true ∧ isHexDigit d = true ∧ EvenDigits rest := by
  obtain ⟨heven, hdigits⟩ := h
  refine ⟨hdigits c (by simp), hdigits d (by simp), ?_, fun e he => hdigits e (by simp [he])⟩
  simp only [List.length_cons] at heven
  omega

/-- Digits are read as the bytes that are written so. -/
theorem uploadRaw_digits (h : EvenDigits text) :
    ∃ b, uploadRaw text = .ok b ∧ (hex b).toList = lowerText text := by
  induction text using List.twoStepInduction with
  | nil => exact ⟨[], rfl, rfl⟩
  | singleton c => cases h.even
  | cons_cons c d rest ih _ =>
    obtain ⟨hc, hd, hrest⟩ := h.tail
    obtain ⟨b, hb, hwritten⟩ := hexByte_digits hc hd
    obtain ⟨out, hout, hlower⟩ := ih hrest
    refine ⟨b :: out, ?_, ?_⟩
    · have hpair : ReadsAsByte c d := ⟨.inr hc, hd⟩
      rw [uploadRaw_pair hpair.sizes.1 hpair.sizes.2, hb, hout]
      rfl
    · rw [hex_cons, hwritten, hlower]
      rfl

/-- Only digits are written, two for each byte. -/
theorem evenDigits_of_hex (h : (hex out).toList = lowerText text) : EvenDigits text := by
  induction out generalizing text with
  | nil =>
    obtain rfl : text = [] := List.map_eq_nil_iff.mp h.symm
    exact ⟨rfl, by simp⟩
  | cons b out ih =>
    rw [hex_cons] at h
    match text with
    | [] | [_] => simp [lowerText] at h
    | c :: d :: rest =>
      obtain ⟨hc, hd, hrest⟩ : Nat.digitChar (b.toNat / 16) = c.toLower ∧
          Nat.digitChar (b.toNat % 16) = d.toLower ∧ (hex out).toList = lowerText rest := by
        simpa [lowerText] using h
      have hb : b.toNat < 256 := b.toNat_lt
      obtain ⟨heven, hdigits⟩ := ih hrest
      refine ⟨?_, ?_⟩
      · simp only [List.length_cons]
        omega
      · simp only [List.mem_cons]
        rintro e (rfl | rfl | he)
        · exact isHexDigit_of_toLower (by omega) hc.symm
        · exact isHexDigit_of_toLower (by omega) hd.symm
        · exact hdigits e he

/-- Different bytes are written differently. -/
theorem hex_injective {a b : Bytes} (h : (hex a).toList = (hex b).toList) : a = b := by
  have hsame := String.toList_inj.mp h
  have hread := (hex_spells a).2
  rw [hsame, (hex_spells b).2] at hread
  exact (Option.some_inj.mp hread).symm

theorem PairsOnly.evenDigits (h : PairsOnly text) (hsign : '+' ∉ text) : EvenDigits text := by
  induction h with
  | nil => exact ⟨rfl, by simp⟩
  | cons hreads _ ih =>
    simp only [List.mem_cons, not_or] at hsign
    obtain ⟨heven, hdigits⟩ := ih hsign.2.2
    refine ⟨?_, ?_⟩
    · simp only [List.length_cons]
      omega
    · simp only [List.mem_cons]
      rintro e (rfl | rfl | he)
      · exact hreads.1.resolve_left fun heq => hsign.1 heq.symm
      · exact hreads.2
      · exact hdigits e he

/-- What `hex` writes is read back. -/
theorem uploadRaw_hex (h : (hex out).toList = lowerText text) : uploadRaw text = .ok out := by
  obtain ⟨b, hb, hwritten⟩ := uploadRaw_digits (evenDigits_of_hex h)
  rw [hb, hex_injective (hwritten.trans h.symm)]

/-- The reader is what it is meant to be exactly where no slice is none and no pair has a sign. -/
theorem uploadRaw_exact_iff (text : Text) : Exact uploadRaw (fun _ => True) text ↔
    ¬KeyCuts text ∧ ¬(PairsOnly text ∧ '+' ∈ text) := by
  constructor
  · intro h
    refine ⟨fun hcuts => h.stays ((uploadRaw_panic_iff text).mpr hcuts), ?_⟩
    rintro ⟨hpairs, hsign⟩
    have hdigits := (h.value.mp ((uploadRaw_ok_iff text).mpr hpairs)).1
    cases hdigits.digits '+' hsign
  · rintro ⟨hcuts, hsign⟩
    have hdigits (b : Bytes) (hb : uploadRaw text = .ok b) : EvenDigits text := by
      have hpairs := (uploadRaw_ok_iff text).mp ⟨b, hb⟩
      exact hpairs.evenDigits fun hin => hsign ⟨hpairs, hin⟩
    refine ⟨fun hpanic => hcuts ((uploadRaw_panic_iff text).mp hpanic), ?_, fun b => ?_⟩
    · constructor
      · rintro ⟨b, hb⟩
        exact ⟨hdigits b hb, trivial⟩
      · rintro ⟨heven, -⟩
        obtain ⟨b, hb, -⟩ := uploadRaw_digits heven
        exact ⟨b, hb⟩
    · constructor
      · intro hb
        obtain ⟨out, hout, hwritten⟩ := uploadRaw_digits (hdigits b hb)
        rw [hb] at hout
        cases hout
        exact ⟨trivial, hwritten⟩
      · rintro ⟨-, hwritten⟩
        exact uploadRaw_hex hwritten

end Values

section Sized

variable {text : Text} {read : Text → Except Fault Bytes} {sized : ℕ → Prop}

/-- A reader that gives what `uploadRaw` gives for some lengths is as good as it. -/
theorem Exact.of_raw (h : Exact uploadRaw (fun _ => True) text) (hstays : read text ≠ .error .panic)
    (hok : ∀ b, read text = .ok b ↔ sized text.length ∧ uploadRaw text = .ok b) :
    Exact read sized text := by
  have hvalue : (∃ b, uploadRaw text = .ok b) ↔ EvenDigits text := by
    rw [h.value, and_true]
  have hinverse (b : Bytes) : uploadRaw text = .ok b ↔ (hex b).toList = lowerText text := by
    rw [h.inverse, true_and]
  refine ⟨hstays, ?_, fun b => ?_⟩
  · simp only [hok, exists_and_left]
    rw [hvalue, and_comm]
  · rw [hok, hinverse]

/-- Only a text of an even length is given to the slices. -/
theorem unhexBytes_exact (h : Exact uploadRaw (fun _ => True) text) :
    Exact unhexBytes (fun _ => True) text := by
  refine h.of_raw ?_ fun b => ?_
  · unfold unhexBytes
    split
    · exact (nomatch ·)
    · exact h.stays
  · rw [true_and, unhexBytes]
    split
    · rename_i hodd
      refine iff_of_false (nomatch ·) fun hb => hodd ?_
      obtain ⟨hchars, hbytes⟩ := uploadRaw_lengths hb
      omega
    · exact Iff.rfl

/-- Only a text of sixty-four bytes is. -/
theorem unhexKey_exact (h : Exact uploadRaw (fun _ => True) text) :
    Exact unhexKey (· = 64) text := by
  refine h.of_raw ?_ fun b => ?_
  · unfold unhexKey
    split
    · exact (nomatch ·)
    · exact h.stays
  · rw [unhexKey]
    split
    · rename_i hlong
      refine iff_of_false (nomatch ·) fun ⟨hsize, hb⟩ => hlong ?_
      rw [(uploadRaw_lengths hb).2, hsize]
    · rename_i hsize
      refine ⟨fun hb => ⟨?_, hb⟩, fun hb => hb.2⟩
      rw [← (uploadRaw_lengths hb).2]
      exact not_not.mp hsize

/-- The bytes are counted when they are read. -/
theorem uploadKey_ok_iff (b : Bytes) :
    uploadKey text = .ok b ↔ text.length = 64 ∧ uploadRaw text = .ok b := by
  unfold uploadKey
  cases hraw : uploadRaw text with
  | error e => exact iff_of_false (nomatch ·) fun h => nomatch h.2
  | ok raw =>
    have hchars := (uploadRaw_lengths hraw).1
    simp only [bind, Except.bind]
    split
    · rename_i hlong
      exact iff_of_false (nomatch ·) fun h => hlong (by omega)
    · rename_i hsize
      exact ⟨fun h => ⟨by omega, h⟩, fun h => h.2⟩

theorem uploadKey_panic_iff (text : Text) : uploadKey text = .error .panic ↔ KeyCuts text := by
  rw [← uploadRaw_panic_iff]
  unfold uploadKey
  cases uploadRaw text with
  | error e => exact Iff.rfl
  | ok raw =>
    simp only [bind, Except.bind]
    split <;> exact iff_of_false (nomatch ·) (nomatch ·)

theorem uploadKey_exact (h : Exact uploadRaw (fun _ => True) text) :
    Exact uploadKey (· = 64) text :=
  h.of_raw (fun hpanic => h.stays ((uploadRaw_panic_iff text).mpr ((uploadKey_panic_iff text).mp
    hpanic))) uploadKey_ok_iff

end Sized

end FuryBrowser.PastedText
