import FuryBrowser.TextReading
import Mathlib.Data.List.Infix

/-!
# Slices of a text by its bytes

A slice that ends at an offset of the bytes ends between two characters or inside one. Which of the
two it is can be said of the characters: the first bytes are spent on them one after the other.
-/

namespace FuryBrowser.TextSlices

open AgentDisk TextBytes

/-- The byte continues a character. -/
def Continues (b : UInt8) : Prop := 0x80 ≤ b ∧ b < 0xC0

/-- A slice of the first `n` bytes of a text ends inside a character. -/
def endsInside : ℕ → Text → Bool
  | _, [] => false
  | n, c :: rest => n ≠ 0 && (n < c.utf8Size || endsInside (n - c.utf8Size) rest)

section Characters

variable {c : Char}

theorem not_continues {b : UInt8} (h : b.toNat < 0x80 ∨ 0xC0 ≤ b.toNat) : ¬Continues b := by
  rintro ⟨hlow, hhigh⟩
  have hlow := UInt8.le_iff_toNat_le.mp hlow
  have hhigh := UInt8.lt_iff_toNat_lt.mp hhigh
  simp at hlow hhigh
  omega

theorem continues_ofNat (n : ℕ) : Continues (.ofNat (n % 0x40 + 0x80)) := by
  have hnat := toNat_continuation n
  constructor
  · rw [UInt8.le_iff_toNat_le, hnat]
    exact Nat.le_add_left 0x80 _
  · rw [UInt8.lt_iff_toNat_lt, hnat]
    change n % 0x40 + 0x80 < 0xC0
    omega

/-- The first byte of a character of several. -/
theorem not_continues_lead (k m : ℕ) (hlow : 0xC0 ≤ m) (hsum : k + m < 0x100) :
    ¬Continues (.ofNat (k + m)) := by
  have hnat : (UInt8.ofNat (k + m)).toNat = k + m := UInt8.toNat_ofNat_of_lt' hsum
  exact not_continues (.inr (by omega))

/-- A character is a byte that continues nothing, and bytes that continue it. -/
theorem utf8EncodeChar_shape (c : Char) : ∃ lead more, String.utf8EncodeChar c = lead :: more ∧
    ¬Continues lead ∧ (∀ b ∈ more, Continues b) ∧ more.length + 1 = c.utf8Size := by
  have hsize {bytes : Bytes} (h : String.utf8EncodeChar c = bytes) :
      bytes.length = c.utf8Size := by
    rw [← h, String.length_utf8EncodeChar]
  rcases Nat.lt_or_ge c.toNat 0x80 with h1 | h1
  · have henc := TextLines.utf8EncodeChar_low h1
    have hnat : (UInt8.ofNat c.toNat).toNat = c.toNat :=
      UInt8.toNat_ofNat_of_lt' (by simp [UInt8.size]; omega)
    exact ⟨_, _, henc, not_continues (.inl (by omega)), by simp, hsize henc⟩
  · rcases Nat.lt_or_ge c.toNat 0x800 with h2 | h2
    · have henc := utf8EncodeChar_two h1 (by omega)
      refine ⟨_, _, henc, not_continues_lead _ _ (by omega) (by omega), ?_, hsize henc⟩
      simp only [List.mem_cons, List.not_mem_nil, or_false]
      rintro b rfl
      exact continues_ofNat _
    · rcases Nat.lt_or_ge c.toNat 0x10000 with h3 | h3
      · have henc := utf8EncodeChar_three h2 (by omega)
        refine ⟨_, _, henc, not_continues_lead _ _ (by omega) (by omega), ?_, hsize henc⟩
        simp only [List.mem_cons, List.not_mem_nil, or_false]
        rintro b (rfl | rfl)
        · exact continues_ofNat _
        · exact continues_ofNat _
      · have henc := utf8EncodeChar_four h3
        refine ⟨_, _, henc, not_continues_lead _ _ (by omega) (by omega), ?_, hsize henc⟩
        simp only [List.mem_cons, List.not_mem_nil, or_false]
        rintro b (rfl | rfl | rfl)
        · exact continues_ofNat _
        · exact continues_ofNat _
        · exact continues_ofNat _

/-- A character of one byte is its own byte. -/
theorem utf8Size_eq_one : c.utf8Size = 1 ↔ c.toNat < 0x80 := by
  rw [Char.utf8Size_eq_one_iff, UInt32.le_iff_toNat_le]
  exact Nat.lt_succ_iff.symm

theorem utf8EncodeChar_one (h : c.utf8Size = 1) : String.utf8EncodeChar c = [.ofNat c.toNat] :=
  TextLines.utf8EncodeChar_low (utf8Size_eq_one.mp h)

end Characters

section Slices

variable {n : ℕ} {text rest : Text}

theorem endsInside_zero (text : Text) : endsInside 0 text = false := by
  cases text <;> rfl

theorem endsInside_cons (c : Char) (h : n ≠ 0) :
    endsInside n (c :: rest) = true ↔
      n < c.utf8Size ∨ endsInside (n - c.utf8Size) rest = true := by
  simp [endsInside, h]

/-- The bytes of a text do not begin inside a character. -/
theorem bytesOf_head {b : UInt8} (h : b ∈ (bytesOf text).head?) : ¬Continues b := by
  cases text with
  | nil => cases h
  | cons c rest =>
    obtain ⟨lead, more, henc, hlead, -, -⟩ := utf8EncodeChar_shape c
    rw [bytesOf_cons, henc] at h
    cases h
    exact hlead

/-- A slice ends inside a character exactly when the byte after it continues one. -/
theorem endsInside_iff (n : ℕ) (text : Text) :
    endsInside n text = true ↔ ∃ b ∈ ((bytesOf text).drop n).head?, Continues b := by
  induction text generalizing n with
  | nil => simp [endsInside, bytesOf]
  | cons c rest ih =>
    by_cases hn : n = 0
    · subst hn
      rw [endsInside_zero, List.drop_zero]
      exact iff_of_false Bool.false_ne_true fun ⟨b, hb, hcont⟩ => bytesOf_head hb hcont
    · obtain ⟨lead, more, henc, -, hmore, hsize⟩ := utf8EncodeChar_shape c
      obtain ⟨k, rfl⟩ := Nat.exists_eq_succ_of_ne_zero hn
      rw [endsInside_cons c hn, bytesOf_cons, henc, List.cons_append, List.drop_succ_cons]
      rcases Nat.lt_or_ge k more.length with hk | hk
      · have hdrop := List.drop_eq_getElem_cons hk
        rw [List.drop_append_of_le_length (Nat.le_of_lt hk), hdrop]
        exact iff_of_true (.inl (by omega))
          ⟨_, rfl, hmore _ (List.getElem_mem hk)⟩
      · have hnot : ¬k + 1 < c.utf8Size := by omega
        have hleft : k + 1 - c.utf8Size = k - more.length := by omega
        rw [List.drop_append, List.drop_eq_nil_of_le hk, List.nil_append, Nat.succ_eq_add_one,
          hleft, or_iff_right hnot, ih]

/-- What ends inside a character still does with more text behind it. -/
theorem endsInside_append (h : endsInside n text = true) (more : Text) :
    endsInside n (text ++ more) = true := by
  induction text generalizing n with
  | nil => cases h
  | cons c rest ih =>
    by_cases hn : n = 0
    · subst hn
      cases h
    · rw [List.cons_append, endsInside_cons c hn]
      exact ((endsInside_cons c hn).mp h).imp id fun hrest => ih hrest

/-- How a text begins, as far as a slice of two bytes sees it. -/
inductive Front : Text → Prop where
  | nil : Front []
  /-- The slice would end behind the text. -/
  | single {c : Char} (h : c.utf8Size = 1) : Front [c]
  /-- The slice ends inside a character. -/
  | inside {text : Text} (h : endsInside 2 text = true) : Front text
  /-- The slice is a character of two bytes. -/
  | wide {c : Char} {rest : Text} (h : c.utf8Size = 2) : Front (c :: rest)
  /-- The slice is two characters. -/
  | pair {c d : Char} {rest : Text} (hc : c.utf8Size = 1) (hd : d.utf8Size = 1) :
    Front (c :: d :: rest)

/-- Every text begins in one of these ways. -/
theorem front (text : Text) : Front text := by
  cases text with
  | nil => exact .nil
  | cons c rest =>
    rcases Nat.lt_trichotomy c.utf8Size 2 with hc | hc | hc
    · have hone : c.utf8Size = 1 := by
        have := c.utf8Size_pos
        omega
      cases rest with
      | nil => exact .single hone
      | cons d rest =>
        by_cases hd : d.utf8Size = 1
        · exact .pair hone hd
        · apply Front.inside
          rw [endsInside_cons c (by decide), hone, endsInside_cons d (by decide)]
          have := d.utf8Size_pos
          exact .inr (.inl (by omega))
    · exact .wide hc
    · exact .inside ((endsInside_cons c (by decide)).mpr (.inl hc))

end Slices

end FuryBrowser.TextSlices
