import FuryBrowser.TextBytes
import Mathlib.Algebra.Group.Nat.Defs

/-!
# base64url without padding

Three bytes are four characters, and what is left of one or two bytes two or three. Whatever was
encoded is decoded again, and nothing is decoded that has another character in it.
-/

namespace FuryBrowser.Base64Url

open AgentDisk TextBytes

section Coding

/-- The alphabet. -/
def alphabet : Text :=
  "ABCDEFGHIJKLMNOPQRSTUVWXYZabcdefghijklmnopqrstuvwxyz0123456789-_".toList

/-- The character of six bits. -/
def digit (n : ℕ) : Char := alphabet.getD n 'A'

/-- The six bits of a character. -/
def value (c : Char) : Option ℕ :=
  if 'A' ≤ c ∧ c ≤ 'Z' then some (c.toNat - 65)
  else if 'a' ≤ c ∧ c ≤ 'z' then some (c.toNat - 71)
  else if '0' ≤ c ∧ c ≤ '9' then some (c.toNat + 4)
  else if c = '-' then some 62
  else if c = '_' then some 63
  else none

/-- `URL_SAFE_NO_PAD.encode`. -/
def encode : Bytes → Text
  | [] => []
  | [a] => [digit (a.toNat / 4), digit (a.toNat % 4 * 16)]
  | [a, b] =>
    [digit (a.toNat / 4), digit (a.toNat % 4 * 16 + b.toNat / 16), digit (b.toNat % 16 * 4)]
  | a :: b :: c :: rest =>
    digit (a.toNat / 4) :: digit (a.toNat % 4 * 16 + b.toNat / 16) ::
      digit (b.toNat % 16 * 4 + c.toNat / 64) :: digit (c.toNat % 64) :: encode rest

/-- `URL_SAFE_NO_PAD.decode`: the bits that are left over are zero. -/
def decode : Text → Option Bytes
  | [] => some []
  | [_] => none
  | [a, b] => do
    let n := (← value a) * 64 + (← value b)
    if n % 16 = 0 then some [.ofNat (n / 16)] else none
  | [a, b, c] => do
    let n := ((← value a) * 64 + (← value b)) * 64 + (← value c)
    if n % 4 = 0 then some [.ofNat (n / 1024), .ofNat (n / 4 % 256)] else none
  | a :: b :: c :: d :: rest => do
    let n := (((← value a) * 64 + (← value b)) * 64 + (← value c)) * 64 + (← value d)
    let bytes ← decode rest
    some (.ofNat (n / 65536) :: .ofNat (n / 256 % 256) :: .ofNat (n % 256) :: bytes)

example : encode (bytesOf "a?>".toList) = "YT8-".toList ∧
    decode "YT8-".toList = some (bytesOf "a?>".toList) := by
  decide

end Coding

section Decoding

theorem value_digit : ∀ n < 64, value (digit n) = some n := by decide +kernel

theorem ofNat_eq {b : UInt8} {n : ℕ} (h : n = b.toNat) : UInt8.ofNat n = b := by
  rw [h, UInt8.ofNat_toNat]

/-- What was encoded is decoded again. -/
theorem decode_encode (bytes : Bytes) : decode (encode bytes) = some bytes := by
  induction bytes using encode.induct with
  | case1 => rfl
  | case2 a =>
    have ha := a.toNat_lt
    rw [encode, decode, value_digit _ (by omega), value_digit _ (by omega)]
    simp only [Option.bind_eq_bind, Option.bind_some]
    rw [if_pos (by omega), ofNat_eq (b := a) (by omega)]
  | case3 a b =>
    have ha := a.toNat_lt
    have hb := b.toNat_lt
    rw [encode, decode, value_digit _ (by omega), value_digit _ (by omega),
      value_digit _ (by omega)]
    simp only [Option.bind_eq_bind, Option.bind_some]
    rw [if_pos (by omega), ofNat_eq (b := a) (by omega), ofNat_eq (b := b) (by omega)]
  | case4 a b c rest ih =>
    have ha := a.toNat_lt
    have hb := b.toNat_lt
    have hc := c.toNat_lt
    rw [encode, decode, value_digit _ (by omega), value_digit _ (by omega),
      value_digit _ (by omega), value_digit _ (by omega), ih]
    simp only [Option.bind_eq_bind, Option.bind_some]
    rw [ofNat_eq (b := a) (by omega), ofNat_eq (b := b) (by omega), ofNat_eq (b := c) (by omega)]

theorem value_mem : ∀ c ∈ alphabet, (value c).isSome :=
  forall_mem_of_all (by decide)

theorem encode_values (bytes : Bytes) : ∀ c ∈ encode bytes, (value c).isSome := by
  have hdigit (n : ℕ) : (value (digit n)).isSome := by
    unfold digit
    rw [List.getD_eq_getElem?_getD]
    cases hn : alphabet[n]? with
    | none => decide
    | some c => exact value_mem c (List.mem_of_getElem? hn)
  induction bytes using encode.induct with
  | case1 => simp [encode]
  | case2 a => simp [encode, hdigit]
  | case3 a b => simp [encode, hdigit]
  | case4 a b c rest ih =>
    simp only [encode, List.mem_cons]
    rintro d (rfl | rfl | rfl | rfl | hrest)
    · exact hdigit _
    · exact hdigit _
    · exact hdigit _
    · exact hdigit _
    · exact ih d hrest

/-- Nothing is decoded that has another character in it. -/
theorem decode_values {text : Text} {bytes : Bytes} (h : decode text = some bytes) :
    ∀ c ∈ text, (value c).isSome := by
  induction text using decode.induct generalizing bytes with
  | case1 => simp
  | case2 a => cases h
  | case3 a b =>
    simp only [decode, Option.bind_eq_bind, Option.bind_eq_some_iff] at h
    obtain ⟨x, hx, y, hy, -⟩ := h
    simp [hx, hy]
  | case4 a b c =>
    simp only [decode, Option.bind_eq_bind, Option.bind_eq_some_iff] at h
    obtain ⟨x, hx, y, hy, z, hz, -⟩ := h
    simp [hx, hy, hz]
  | case5 a b c d rest ih =>
    simp only [decode, Option.bind_eq_bind, Option.bind_eq_some_iff] at h
    obtain ⟨x, hx, y, hy, z, hz, w, hw, more, hmore, -⟩ := h
    simp only [List.mem_cons]
    rintro e (rfl | rfl | rfl | rfl | hrest)
    · rw [hx]; rfl
    · rw [hy]; rfl
    · rw [hz]; rfl
    · rw [hw]; rfl
    · exact ih hmore e hrest

end Decoding

end FuryBrowser.Base64Url
