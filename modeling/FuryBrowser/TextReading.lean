import FuryBrowser.TextLines

/-!
# Text read back from its bytes

The bytes of a text decode to the text, whatever its characters are.
-/

namespace FuryBrowser.TextBytes

open AgentDisk TextLines

section Sequences

variable {b : UInt8} {acc : ℕ} {low high : UInt8} {more : ℕ} {rest : Bytes}

/-- A continuation that is in range adds its six bits. -/
theorem sequence_cons (hlow : low.toNat ≤ b.toNat) (hhigh : b.toNat ≤ high.toNat) :
    sequence acc low high (more + 1) (b :: rest) =
      ((sequence (acc * 64 + (b.toNat - 0x80)) 0x80 0xBF more rest).1,
        (sequence (acc * 64 + (b.toNat - 0x80)) 0x80 0xBF more rest).2 + 1) := by
  rw [TextBytes.sequence, if_pos ⟨UInt8.le_iff_toNat_le.mpr hlow, UInt8.le_iff_toNat_le.mpr hhigh⟩]

theorem leadOf_two (hlow : 0xC2 ≤ b.toNat) (hhigh : b.toNat ≤ 0xDF) :
    leadOf b = some (1, b.toNat - 0xC0, 0x80, 0xBF) := by
  rw [leadOf, if_pos ⟨UInt8.le_iff_toNat_le.mpr hlow, UInt8.le_iff_toNat_le.mpr hhigh⟩]

/-- The first byte of three, and the range it leaves to the second. -/
theorem leadOf_three (hlow : 0xE0 ≤ b.toNat) (hhigh : b.toNat ≤ 0xEF) :
    ∃ low high, leadOf b = some (2, b.toNat - 0xE0, low, high) ∧
      (low = 0x80 ∨ b.toNat = 0xE0 ∧ low = 0xA0) ∧
      (high = 0xBF ∨ b.toNat = 0xED ∧ high = 0x9F) := by
  have htwo : ¬(0xC2 ≤ b ∧ b ≤ 0xDF) := by
    rintro ⟨-, hle⟩
    have hnat := UInt8.le_iff_toNat_le.mp hle
    simp at hnat
    omega
  by_cases h0 : b = 0xE0
  · subst h0
    exact ⟨0xA0, 0xBF, rfl, .inr ⟨rfl, rfl⟩, .inl rfl⟩
  · by_cases hd : b = 0xED
    · subst hd
      exact ⟨0x80, 0x9F, rfl, .inl rfl, .inr ⟨rfl, rfl⟩⟩
    · have hne : b.toNat ≠ 0xE0 := fun heq => h0 (UInt8.toNat_inj.mp heq)
      have hin : 0xE1 ≤ b ∧ b ≤ 0xEF :=
        ⟨UInt8.le_iff_toNat_le.mpr (by simp; omega), UInt8.le_iff_toNat_le.mpr hhigh⟩
      refine ⟨0x80, 0xBF, ?_, .inl rfl, .inl rfl⟩
      rw [leadOf, if_neg htwo, if_neg h0, if_neg hd, if_pos hin]

theorem leadOf_four (hlow : 0xF0 ≤ b.toNat) (hhigh : b.toNat ≤ 0xF4) :
    ∃ low high, leadOf b = some (3, b.toNat - 0xF0, low, high) ∧
      (low = 0x80 ∨ b.toNat = 0xF0 ∧ low = 0x90) ∧
      (high = 0xBF ∨ b.toNat = 0xF4 ∧ high = 0x8F) := by
  have hcases : b = 0xF0 ∨ b = 0xF1 ∨ b = 0xF2 ∨ b = 0xF3 ∨ b = 0xF4 := by
    simp only [← UInt8.toNat_inj]
    simp
    omega
  rcases hcases with rfl | rfl | rfl | rfl | rfl
  · exact ⟨0x90, 0xBF, rfl, .inr ⟨rfl, rfl⟩, .inl rfl⟩
  · exact ⟨0x80, 0xBF, rfl, .inl rfl, .inl rfl⟩
  · exact ⟨0x80, 0xBF, rfl, .inl rfl, .inl rfl⟩
  · exact ⟨0x80, 0xBF, rfl, .inl rfl, .inl rfl⟩
  · exact ⟨0x80, 0x8F, rfl, .inl rfl, .inr ⟨rfl, rfl⟩⟩

theorem nextChar_lead {lead : UInt8} {low high : UInt8} (hhigh : 0x80 ≤ lead.toNat)
    (h : leadOf lead = some (more, acc, low, high)) :
    nextChar lead rest = sequence acc low high more rest := by
  have hnot : ¬lead < 0x80 := by
    rw [UInt8.not_lt]
    exact UInt8.le_iff_toNat_le.mpr hhigh
  rw [nextChar, if_neg hnot, h]

/-- A continuation byte, as a number. -/
theorem toNat_continuation (n : ℕ) : (UInt8.ofNat (n % 0x40 + 0x80)).toNat = n % 0x40 + 0x80 :=
  UInt8.toNat_ofNat_of_lt' (by simp [UInt8.size]; omega)

/-- The last continuation of a sequence. -/
theorem sequence_last (low high : UInt8) (v : ℕ) (hlow : low.toNat ≤ v % 0x40 + 0x80)
    (hhigh : v % 0x40 + 0x80 ≤ high.toNat) :
    sequence acc low high 1 (.ofNat (v % 0x40 + 0x80) :: rest) =
      (.ofNat (acc * 64 + v % 0x40), 1) := by
  have hnat := toNat_continuation v
  rw [sequence_cons (by omega) (by omega), hnat]
  simp [TextBytes.sequence]

/-- A continuation before the last one. -/
theorem sequence_next (low high : UInt8) (v : ℕ) (hlow : low.toNat ≤ v % 0x40 + 0x80)
    (hhigh : v % 0x40 + 0x80 ≤ high.toNat) :
    sequence acc low high (more + 1) (.ofNat (v % 0x40 + 0x80) :: rest) =
      ((sequence (acc * 64 + v % 0x40) 0x80 0xBF more rest).1,
        (sequence (acc * 64 + v % 0x40) 0x80 0xBF more rest).2 + 1) := by
  have hnat := toNat_continuation v
  rw [sequence_cons (by omega) (by omega), hnat, Nat.add_sub_cancel]

end Sequences

section Characters

variable {c : Char}

theorem utf8EncodeChar_two (hlow : 0x80 ≤ c.toNat) (hhigh : c.toNat ≤ 0x7FF) :
    String.utf8EncodeChar c =
      [.ofNat (c.toNat / 64 % 0x20 + 0xC0), .ofNat (c.toNat % 0x40 + 0x80)] := by
  have h1 : ¬c.val.toNat ≤ 0x7F := Nat.not_le.mpr hlow
  have h2 : c.val.toNat ≤ 0x7FF := hhigh
  simp only [String.utf8EncodeChar, if_neg h1, if_pos h2]
  rfl

theorem utf8EncodeChar_three (hlow : 0x800 ≤ c.toNat) (hhigh : c.toNat ≤ 0xFFFF) :
    String.utf8EncodeChar c =
      [.ofNat (c.toNat / 4096 % 0x10 + 0xE0), .ofNat (c.toNat / 64 % 0x40 + 0x80),
        .ofNat (c.toNat % 0x40 + 0x80)] := by
  have hval : c.val.toNat = c.toNat := rfl
  have h1 : ¬c.val.toNat ≤ 0x7F := by omega
  have h2 : ¬c.val.toNat ≤ 0x7FF := by omega
  have h3 : c.val.toNat ≤ 0xFFFF := hhigh
  simp only [String.utf8EncodeChar, if_neg h1, if_neg h2, if_pos h3]
  rfl

theorem utf8EncodeChar_four (hlow : 0x10000 ≤ c.toNat) :
    String.utf8EncodeChar c =
      [.ofNat (c.toNat / 262144 % 0x08 + 0xF0), .ofNat (c.toNat / 4096 % 0x40 + 0x80),
        .ofNat (c.toNat / 64 % 0x40 + 0x80), .ofNat (c.toNat % 0x40 + 0x80)] := by
  have hval : c.val.toNat = c.toNat := rfl
  have h1 : ¬c.val.toNat ≤ 0x7F := by omega
  have h2 : ¬c.val.toNat ≤ 0x7FF := by omega
  have h3 : ¬c.val.toNat ≤ 0xFFFF := by omega
  simp only [String.utf8EncodeChar, if_neg h1, if_neg h2, if_neg h3]
  rfl

/-- The code points that are characters. -/
theorem toNat_valid (c : Char) : c.toNat < 0xD800 ∨ 0xDFFF < c.toNat ∧ c.toNat < 0x110000 :=
  c.valid

/-- The bytes of a character read back as it, whatever follows them. -/
theorem nextChar_encode (c : Char) (rest : Bytes) :
    ∃ lead more, String.utf8EncodeChar c = lead :: more ∧
      nextChar lead (more ++ rest) = (c, more.length) := by
  have hvalid := toNat_valid c
  have hback : ∀ n, n = c.toNat → Char.ofNat n = c := by
    rintro _ rfl
    exact Char.ofNat_toNat c
  rcases Nat.lt_or_ge c.toNat 0x80 with h1 | h1
  · have hnat : (UInt8.ofNat c.toNat).toNat = c.toNat :=
      UInt8.toNat_ofNat_of_lt' (by simp [UInt8.size]; omega)
    have hlow : UInt8.ofNat c.toNat < 0x80 := UInt8.lt_iff_toNat_lt.mpr (by rw [hnat]; exact h1)
    refine ⟨_, [], utf8EncodeChar_low h1, ?_⟩
    rw [nextChar, if_pos hlow, hnat, hback _ rfl]
    rfl
  rcases Nat.lt_or_ge c.toNat 0x800 with h2 | h2
  · have hnat : (UInt8.ofNat (c.toNat / 64 % 0x20 + 0xC0)).toNat = c.toNat / 64 % 0x20 + 0xC0 :=
      UInt8.toNat_ofNat_of_lt' (by simp [UInt8.size]; omega)
    refine ⟨_, _, utf8EncodeChar_two h1 (by omega), ?_⟩
    rw [List.singleton_append, nextChar_lead (by omega) (leadOf_two (by omega) (by omega)),
      sequence_last 0x80 0xBF c.toNat (by simp) (by simp; omega), hback _ (by omega)]
    rfl
  rcases Nat.lt_or_ge c.toNat 0x10000 with h3 | h3
  · have hnat : (UInt8.ofNat (c.toNat / 4096 % 0x10 + 0xE0)).toNat = c.toNat / 4096 % 0x10 + 0xE0 :=
      UInt8.toNat_ofNat_of_lt' (by simp [UInt8.size]; omega)
    refine ⟨_, _, utf8EncodeChar_three h2 (by omega), ?_⟩
    obtain ⟨low, high, hlead, hlow, hhigh⟩ := leadOf_three
      (b := .ofNat (c.toNat / 4096 % 0x10 + 0xE0)) (by omega) (by omega)
    have hlow' : low.toNat ≤ c.toNat / 64 % 0x40 + 0x80 := by
      rcases hlow with rfl | ⟨hb, rfl⟩ <;> simp <;> omega
    have hhigh' : c.toNat / 64 % 0x40 + 0x80 ≤ high.toNat := by
      rcases hhigh with rfl | ⟨hb, rfl⟩ <;> simp <;> omega
    rw [List.cons_append, List.singleton_append, nextChar_lead (by omega) hlead,
      sequence_next low high _ hlow' hhigh',
      sequence_last 0x80 0xBF c.toNat (by simp) (by simp; omega), hback _ (by omega)]
    rfl
  · have hnat : (UInt8.ofNat (c.toNat / 262144 % 0x08 + 0xF0)).toNat =
        c.toNat / 262144 % 0x08 + 0xF0 :=
      UInt8.toNat_ofNat_of_lt' (by simp [UInt8.size]; omega)
    refine ⟨_, _, utf8EncodeChar_four h3, ?_⟩
    obtain ⟨low, high, hlead, hlow, hhigh⟩ := leadOf_four
      (b := .ofNat (c.toNat / 262144 % 0x08 + 0xF0)) (by omega) (by omega)
    have hlow' : low.toNat ≤ c.toNat / 4096 % 0x40 + 0x80 := by
      rcases hlow with rfl | ⟨hb, rfl⟩ <;> simp <;> omega
    have hhigh' : c.toNat / 4096 % 0x40 + 0x80 ≤ high.toNat := by
      rcases hhigh with rfl | ⟨hb, rfl⟩ <;> simp <;> omega
    rw [List.cons_append, List.cons_append, List.singleton_append,
      nextChar_lead (by omega) hlead, sequence_next low high _ hlow' hhigh',
      sequence_next 0x80 0xBF _ (by simp) (by simp; omega),
      sequence_last 0x80 0xBF c.toNat (by simp) (by simp; omega), hback _ (by omega)]
    rfl

/-- A text reads back from its bytes. -/
theorem fromUtf8Lossy_bytesOf (text : Text) : fromUtf8Lossy (bytesOf text) = text := by
  induction text with
  | nil => rfl
  | cons c text ih =>
    obtain ⟨lead, more, hc, hnext⟩ := nextChar_encode c (bytesOf text)
    rw [bytesOf_cons, hc, List.cons_append, fromUtf8Lossy_cons, hnext, List.drop_left, ih]

end Characters

end FuryBrowser.TextBytes
