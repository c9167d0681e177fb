import FuryBrowser.TextBytes

/-!
# Lines and words of a text

What the standard library cuts a text into: its lines, which end in a line feed with or without a
carriage return before it, its words, and what comes before and after a mark. Bytes that are read
as a text and written again keep every byte below 0x80 in its place, so lines are cut at the same
places before and after.
-/

namespace FuryBrowser.TextLines

open AgentDisk TextBytes

section Cuts

/-- `str::to_ascii_lowercase`. -/
def lowerText (text : Text) : Text := text.map Char.toLower

/-- `str::strip_prefix`. -/
def stripStart (start text : Text) : Option Text :=
  if start.isPrefixOf text then some (text.drop start.length) else none

/-- `str::trim_start_matches` with a character. -/
def trimStartMatches (c : Char) (text : Text) : Text := text.dropWhile (· = c)

/-- `str::trim_end_matches` with a character. -/
def trimEndMatches (c : Char) (text : Text) : Text := (text.reverse.dropWhile (· = c)).reverse

/-- `str::rsplit_once`. -/
def rsplitOnce (at_ : Char) (text : Text) : Option (Text × Text) :=
  (splitOnce at_ text.reverse).map fun (after, before) => (before.reverse, after.reverse)

/-- `str::split_whitespace`. -/
def words (text : Text) : List Text := (text.splitOnP isWhiteSpace).filter (· ≠ [])

/-- A line without the carriage return at its end. -/
def stripReturn (line : Text) : Text :=
  if line.getLast? = some '\r' then line.dropLast else line

/-- `str::lines`: what ends in a line feed, and what comes after the last one unless it is
empty. -/
def lines (text : Text) : List Text :=
  let parts := splitAt '\n' text
  parts.dropLast.map stripReturn ++ parts.getLast?.toList.filter (· ≠ [])

/-- A line feed, and the carriage return before it. -/
def newline : Text := ['\r', '\n']

end Cuts

section Lines

variable {at_ : Char} {a b : Text}

theorem splitAt_ne_nil (text : Text) : splitAt at_ text ≠ [] := by
  cases text with
  | nil => simp [splitAt]
  | cons c rest =>
    rw [splitAt]
    split
    · simp
    · split <;> simp

/-- A text is split where either side of a mark is. -/
theorem splitAt_append : splitAt at_ (a ++ at_ :: b) = splitAt at_ a ++ splitAt at_ b := by
  induction a with
  | nil => simp [splitAt]
  | cons c rest ih =>
    rw [List.cons_append, splitAt, splitAt, ih]
    by_cases hc : c = at_
    · simp [hc]
    · rw [if_neg hc, if_neg hc]
      cases hparts : splitAt at_ rest with
      | nil => exact absurd hparts (splitAt_ne_nil rest)
      | cons part parts => rfl

theorem splitAt_of_notMem (h : at_ ∉ a) : splitAt at_ a = [a] := by
  induction a with
  | nil => rfl
  | cons c rest ih =>
    have hc : c ≠ at_ := fun heq => h (heq ▸ List.mem_cons_self)
    rw [splitAt, if_neg hc, ih fun hin => h (List.mem_cons_of_mem _ hin)]

/-- The first part of a text with a mark. -/
theorem splitAt_headD (h : at_ ∉ a) (default : Text) :
    (splitAt at_ (a ++ at_ :: b)).headD default = a := by
  rw [splitAt_append, splitAt_of_notMem h]
  rfl

/-- The lines before a line feed, and those after it. -/
theorem lines_append :
    lines (a ++ '\n' :: b) = (splitAt '\n' a).map stripReturn ++ lines b := by
  have hb : splitAt '\n' b ≠ [] := splitAt_ne_nil b
  simp only [lines]
  rw [splitAt_append, List.dropLast_append_of_ne_nil hb, List.map_append, List.append_assoc,
    List.getLast?_append_of_ne_nil _ hb]

theorem stripReturn_append (line : Text) : stripReturn (line ++ ['\r']) = line := by
  simp [stripReturn]

theorem lines_cons {line : Text} (h : '\n' ∉ line) :
    lines (line ++ newline ++ b) = line :: lines b := by
  have hline : '\n' ∉ line ++ ['\r'] := by simp [h]
  have hshape : line ++ newline ++ b = (line ++ ['\r']) ++ '\n' :: b := by simp [newline]
  rw [hshape, lines_append, splitAt_of_notMem hline, List.map_singleton, stripReturn_append,
    List.singleton_append]

theorem lines_flatMap {all : List Text} (h : ∀ line ∈ all, '\n' ∉ line) :
    lines (all.flatMap (· ++ newline) ++ b) = all ++ lines b := by
  induction all with
  | nil => rfl
  | cons line rest ih =>
    rw [List.flatMap_cons, List.append_assoc, lines_cons (h line (by simp)),
      ih fun l hl => h l (List.mem_cons_of_mem _ hl), List.cons_append]

/-- What stands between marks holds none. -/
theorem splitOnP_free {α : Type} {p : α → Bool} {l part : List α} (h : part ∈ l.splitOnP p) :
    ∀ c ∈ part, p c = false := by
  induction l generalizing part with
  | nil =>
    rw [List.splitOnP_nil, List.mem_singleton] at h
    subst h
    simp
  | cons x rest ih =>
    rw [List.splitOnP_cons_eq_if_modifyHead] at h
    split at h
    · rcases List.mem_cons.mp h with rfl | h
      · simp
      · exact ih h
    · rename_i hx
      cases hrest : rest.splitOnP p with
      | nil => exact absurd hrest (List.splitOnP_ne_nil p rest)
      | cons first more =>
        rw [hrest] at h ih
        rcases List.mem_cons.mp h with rfl | h
        · intro c hc
          rcases List.mem_cons.mp hc with rfl | hc
          · simpa using hx
          · exact ih List.mem_cons_self c hc
        · exact ih (List.mem_cons_of_mem _ h)

theorem words_free {text word : Text} (h : word ∈ words text) :
    ∀ c ∈ word, isWhiteSpace c = false :=
  splitOnP_free (List.mem_of_mem_filter h)

/-- A capital letter is 32 before its small one. -/
theorem toNat_toLower (c : Char) :
    c.toLower.toNat = if 65 ≤ c.toNat ∧ c.toNat ≤ 90 then c.toNat + 32 else c.toNat := by
  have hupper : (c.val ≥ 'A'.val ∧ c.val ≤ 'Z'.val) ↔ (65 ≤ c.toNat ∧ c.toNat ≤ 90) := by
    simp only [ge_iff_le, UInt32.le_iff_toNat_le]
    rfl
  unfold Char.toLower
  split
  · rename_i h
    have hrange := hupper.mp h
    rw [if_pos hrange]
    change (c.val + 32).toNat = c.val.toNat + 32
    rw [UInt32.toNat_add]
    have : c.val.toNat ≤ 90 := hrange.2
    change (c.val.toNat + 32) % 2 ^ 32 = _
    omega
  · rename_i h
    rw [if_neg (hupper.not.mp h)]

theorem trimText_of_forall {text : Text} (h : ∀ c ∈ text, isWhiteSpace c = false) :
    trimText text = text := by
  have hkeep (l : Text) (hl : ∀ c ∈ l, isWhiteSpace c = false) :
      l.dropWhile isWhiteSpace = l := by
    cases l with
    | nil => rfl
    | cons c rest => simp [List.dropWhile, hl c List.mem_cons_self]
  rw [trimText, hkeep _ h, hkeep _ (by simpa using h), List.reverse_reverse]

theorem splitOnce_eq {text : Text} (h : splitOnce at_ text = some (a, b)) :
    text = a ++ at_ :: b := by
  induction text generalizing a with
  | nil => simp [splitOnce] at h
  | cons c rest ih =>
    rw [splitOnce] at h
    split at h
    · rename_i hc
      cases h
      rw [hc, List.nil_append]
    · obtain ⟨⟨before, more⟩, hrest, heq⟩ := Option.map_eq_some_iff.mp h
      cases heq
      rw [ih hrest, List.cons_append]

/-- What comes before the first mark, and what after it. -/
theorem splitOnce_append (h : at_ ∉ a) : splitOnce at_ (a ++ at_ :: b) = some (a, b) := by
  induction a with
  | nil => simp [splitOnce]
  | cons c rest ih =>
    have hc : c ≠ at_ := fun heq => h (heq ▸ List.mem_cons_self)
    rw [List.cons_append, splitOnce, if_neg hc, ih fun hin => h (List.mem_cons_of_mem _ hin)]
    rfl

theorem splitOnce_of_notMem (h : at_ ∉ a) : splitOnce at_ a = none := by
  induction a with
  | nil => rfl
  | cons c rest ih =>
    have hc : c ≠ at_ := fun heq => h (heq ▸ List.mem_cons_self)
    rw [splitOnce, if_neg hc, ih fun hin => h (List.mem_cons_of_mem _ hin)]
    rfl

theorem stripStart_eq {start text : Text} (h : stripStart start text = some b) :
    text = start ++ b := by
  unfold stripStart at h
  split at h
  · rename_i hstart
    obtain ⟨more, rfl⟩ := List.isPrefixOf_iff_prefix.mp hstart
    cases h
    rw [List.drop_left]
  · cases h

end Lines

section Ascii

variable {b : UInt8} {bytes rest : Bytes} {text : Text} {c : Char}

/-- What a sequence decodes to lies between what its first continuation allows. -/
theorem sequence_between (acc : ℕ) (low high : UInt8) (more : ℕ) (bytes : Bytes)
    (hlow : 0x80 ≤ low.toNat) (hhigh : high.toNat ≤ 0xBF) :
    (sequence acc low high (more + 1) bytes).1 = replacement ∨
      ∃ n, (sequence acc low high (more + 1) bytes).1 = .ofNat n ∧
        (acc * 64 + (low.toNat - 0x80)) * 64 ^ more ≤ n ∧
        n < (acc * 64 + (high.toNat - 0x80) + 1) * 64 ^ more := by
  induction more generalizing acc low high bytes with
  | zero =>
    cases bytes with
    | nil => exact .inl rfl
    | cons b rest =>
      rw [TextBytes.sequence]
      split
      · rename_i hin
        have hle := UInt8.le_iff_toNat_le.mp hin.1
        have hge := UInt8.le_iff_toNat_le.mp hin.2
        refine .inr ⟨acc * 64 + (b.toNat - 0x80), by simp [TextBytes.sequence], ?_, ?_⟩
        · simp; omega
        · simp; omega
      · exact .inl rfl
  | succ more ih =>
    cases bytes with
    | nil => exact .inl rfl
    | cons b rest =>
      rw [TextBytes.sequence]
      split
      · rename_i hin
        have hle := UInt8.le_iff_toNat_le.mp hin.1
        have hge := UInt8.le_iff_toNat_le.mp hin.2
        dsimp only
        obtain hbad | ⟨n, hn, hlo, hhi⟩ := ih (acc * 64 + (b.toNat - 0x80)) 0x80 0xBF rest
          (by decide) (by decide)
        · exact .inl hbad
        · refine .inr ⟨n, hn, Nat.le_trans ?_ hlo, Nat.lt_of_lt_of_le hhi ?_⟩
          · rw [Nat.pow_succ, ← Nat.mul_assoc, Nat.mul_right_comm]
            exact Nat.mul_le_mul_right _ (by simp; omega)
          · rw [Nat.pow_succ, ← Nat.mul_assoc, Nat.mul_right_comm]
            exact Nat.mul_le_mul_right _ (by simp; omega)
      · exact .inl rfl

theorem toNat_ofNat {n : ℕ} (h : n.isValidChar) : (Char.ofNat n).toNat = n := by
  rw [Char.ofNat, dif_pos h]
  rfl

/-- What the first byte of a sequence says leaves only code points from 0x80 on. -/
theorem leadOf_wide {more acc : ℕ} {low high : UInt8} (h : leadOf b = some (more, acc, low, high)) :
    ∃ k, more = k + 1 ∧ 0x80 ≤ low.toNat ∧ high.toNat ≤ 0xBF ∧
      0x80 ≤ (acc * 64 + (low.toNat - 0x80)) * 64 ^ k ∧
      ((acc * 64 + (high.toNat - 0x80) + 1) * 64 ^ k ≤ 0xD800 ∨
        0xDFFF < (acc * 64 + (low.toNat - 0x80)) * 64 ^ k ∧
          (acc * 64 + (high.toNat - 0x80) + 1) * 64 ^ k ≤ 0x110000) := by
  unfold leadOf at h
  split_ifs at h with h1 h2 h3 h4 h5 h6 h7
  all_goals
    simp only [Option.some.injEq, Prod.mk.injEq] at h
    obtain ⟨rfl, rfl, rfl, rfl⟩ := h
  · have hlo := UInt8.le_iff_toNat_le.mp h1.1
    have hhi := UInt8.le_iff_toNat_le.mp h1.2
    simp at hlo hhi ⊢
    omega
  · exact ⟨1, by decide⟩
  · exact ⟨1, by decide⟩
  · have hlo := UInt8.le_iff_toNat_le.mp h4.1
    have hhi := UInt8.le_iff_toNat_le.mp h4.2
    have hne : b.toNat ≠ 0xED := fun heq => h3 (UInt8.toNat_inj.mp heq)
    simp at hlo hhi ⊢
    omega
  · exact ⟨2, by decide⟩
  · exact ⟨2, by decide⟩
  · have hlo := UInt8.le_iff_toNat_le.mp h7.1
    have hhi := UInt8.le_iff_toNat_le.mp h7.2
    simp at hlo hhi ⊢
    omega

/-- A byte from 0x80 on begins no character below 0x80. -/
theorem nextChar_high (rest : Bytes) (h : 0x80 ≤ b) : 0x80 ≤ (nextChar b rest).1.toNat := by
  have hrepl : 0x80 ≤ replacement.toNat := by decide
  unfold nextChar
  rw [if_neg (UInt8.not_lt.mpr h)]
  cases hlead : leadOf b with
  | none => exact hrepl
  | some lead =>
    obtain ⟨more, acc, low, high⟩ := lead
    obtain ⟨k, rfl, hlow, hhigh, hfrom, hto⟩ := leadOf_wide hlead
    obtain hbad | ⟨n, hn, hn1, hn2⟩ := sequence_between acc low high k rest hlow hhigh
    · rw [hbad]
      exact hrepl
    · have hvalid : n.isValidChar := by
        rcases hto with hto | ⟨hgap, hto⟩
        · exact .inl (Nat.lt_of_lt_of_le hn2 hto)
        · exact .inr ⟨Nat.lt_of_lt_of_le hgap hn1, Nat.lt_of_lt_of_le hn2 hto⟩
      rw [hn, toNat_ofNat hvalid]
      exact Nat.le_trans hfrom hn1

/-- Nor do the bytes of a character from 0x80 on hold a byte below. -/
theorem utf8EncodeChar_high (h : 0x80 ≤ c.toNat) : ∀ b ∈ String.utf8EncodeChar c, 0x80 ≤ b := by
  have hval : ¬c.val.toNat ≤ 0x7F := by
    have heq : c.val.toNat = c.toNat := rfl
    omega
  have hbyte (n : ℕ) (hlo : 0x80 ≤ n) (hhi : n < 256) : (0x80 : UInt8) ≤ .ofNat n := by
    rw [UInt8.le_iff_toNat_le, UInt8.toNat_ofNat_of_lt' hhi]
    exact hlo
  intro b hb
  unfold String.utf8EncodeChar at hb
  rw [if_neg hval] at hb
  split at hb
  · simp only [List.mem_cons, List.not_mem_nil, or_false] at hb
    rcases hb with rfl | rfl <;> exact hbyte _ (by omega) (by omega)
  · split at hb
    · simp only [List.mem_cons, List.not_mem_nil, or_false] at hb
      rcases hb with rfl | rfl | rfl <;> exact hbyte _ (by omega) (by omega)
    · simp only [List.mem_cons, List.not_mem_nil, or_false] at hb
      rcases hb with rfl | rfl | rfl | rfl <;> exact hbyte _ (by omega) (by omega)

/-- A character below 0x80 is its own byte. -/
theorem utf8EncodeChar_low (h : c.toNat < 0x80) :
    String.utf8EncodeChar c = [.ofNat c.toNat] := by
  have hval : c.val.toNat ≤ 0x7F := Nat.lt_succ_iff.mp h
  unfold String.utf8EncodeChar
  rw [if_pos hval]
  rfl

theorem fromUtf8Lossy_low (h : b < 0x80) :
    fromUtf8Lossy (b :: rest) = .ofNat b.toNat :: fromUtf8Lossy rest := by
  have hsplit : fromUtf8Lossy ([] ++ b :: rest) =
      fromUtf8Lossy [] ++ .ofNat b.toNat :: fromUtf8Lossy rest := fromUtf8Lossy_append h
  simpa [fromUtf8Lossy, lossyUpTo] using hsplit

/-- A byte below 0x80 of a text is one of its characters. -/
theorem mem_of_mem_bytesOf (hb : b < 0x80) (h : b ∈ bytesOf text) : .ofNat b.toNat ∈ text := by
  obtain ⟨c, hc, hin⟩ := List.mem_flatMap.mp h
  rcases Nat.lt_or_ge c.toNat 0x80 with hlow | hhigh
  · rw [utf8EncodeChar_low hlow, List.mem_singleton] at hin
    have hsame : b.toNat = c.toNat := by
      rw [hin, UInt8.toNat_ofNat_of_lt' (Nat.lt_trans hlow (by decide))]
    rwa [hsame, Char.ofNat_toNat]
  · exact absurd (UInt8.lt_of_lt_of_le hb (utf8EncodeChar_high hhigh b hin)) (UInt8.lt_irrefl b)

/-- A character below 0x80 that bytes are read as is one of them. -/
theorem mem_of_mem_fromUtf8Lossy (hc : c.toNat < 0x80) (h : c ∈ fromUtf8Lossy bytes) :
    .ofNat c.toNat ∈ bytes := by
  induction hn : bytes.length using Nat.strong_induction_on generalizing bytes with
  | _ n ih =>
    cases bytes with
    | nil => simp [fromUtf8Lossy, lossyUpTo] at h
    | cons b rest =>
      rw [fromUtf8Lossy_cons, List.mem_cons] at h
      rcases h with heq | hrest
      · rcases UInt8.lt_or_le b 0x80 with hlow | hhigh
        · have hchar : (nextChar b rest).1 = .ofNat b.toNat := by simp [nextChar, hlow]
          have hvalid : b.toNat.isValidChar := .inl (Nat.lt_trans b.toNat_lt (by decide))
          have hbyte : c.toNat = b.toNat := by rw [heq, hchar, toNat_ofNat hvalid]
          rw [hbyte]
          simp
        · have hwide := nextChar_high rest hhigh
          rw [← heq] at hwide
          omega
      · have hless : (rest.drop (nextChar b rest).2).length < n := by
          rw [← hn, List.length_drop, List.length_cons]
          omega
        exact List.mem_cons_of_mem _ (List.mem_of_mem_drop (ih _ hless hrest rfl))

end Ascii

section Reread

variable {b : UInt8} {bytes rest : Bytes}

/-- Bytes read as a text and written again. -/
def reread (bytes : Bytes) : Bytes := bytesOf (fromUtf8Lossy bytes)

theorem reread_nil : reread [] = [] := rfl

/-- A byte below 0x80 stays where it is. -/
theorem reread_append (h : b < 0x80) :
    reread (bytes ++ b :: rest) = reread bytes ++ b :: reread rest := by
  have hlow : (Char.ofNat b.toNat).toNat < 0x80 := by
    rw [toNat_ofNat (.inl (Nat.lt_trans b.toNat_lt (by decide)))]
    exact UInt8.lt_iff_toNat_lt.mp h
  have hbyte : String.utf8EncodeChar (.ofNat b.toNat) = [b] := by
    rw [utf8EncodeChar_low hlow, toNat_ofNat (.inl (Nat.lt_trans b.toNat_lt (by decide))),
      UInt8.ofNat_toNat]
  rw [reread, fromUtf8Lossy_append h, bytesOf_append, bytesOf_cons, hbyte]
  rfl

theorem reread_low (h : b < 0x80) : reread (b :: rest) = b :: reread rest := by
  have hsplit : reread ([] ++ b :: rest) = reread [] ++ b :: reread rest := reread_append h
  exact hsplit

/-- A byte from 0x80 on is read and written as bytes from 0x80 on. -/
theorem reread_high (rest : Bytes) (h : 0x80 ≤ b) :
    ∃ b' rest', reread (b :: rest) = b' :: rest' ∧ 0x80 ≤ b' := by
  have hbytes := utf8EncodeChar_high (nextChar_high rest h)
  rw [reread, fromUtf8Lossy_cons, bytesOf_cons]
  cases henc : String.utf8EncodeChar (nextChar b rest).1 with
  | nil => exact absurd henc String.utf8EncodeChar_ne_nil
  | cons b' more => exact ⟨b', _, rfl, hbytes b' (by rw [henc]; exact List.mem_cons_self)⟩

theorem mem_of_mem_reread (hb : b < 0x80) (h : b ∈ reread bytes) : b ∈ bytes := by
  have hvalid : b.toNat.isValidChar := .inl (Nat.lt_trans b.toNat_lt (by decide))
  have hlow : (Char.ofNat b.toNat).toNat < 0x80 := by
    rw [toNat_ofNat hvalid]
    exact UInt8.lt_iff_toNat_lt.mp hb
  have hin := mem_of_mem_fromUtf8Lossy hlow (mem_of_mem_bytesOf hb h)
  rwa [toNat_ofNat hvalid, UInt8.ofNat_toNat] at hin

theorem reread_ne_nil (h : bytes ≠ []) : reread bytes ≠ [] := by
  cases bytes with
  | nil => exact absurd rfl h
  | cons b rest =>
    rcases UInt8.lt_or_le b 0x80 with hlow | hhigh
    · rw [reread_low hlow]
      simp
    · obtain ⟨b', rest', heq, -⟩ := reread_high rest hhigh
      rw [heq]
      simp

/-- `to_ascii_lowercase` of a byte. -/
def lowerByte (b : UInt8) : UInt8 := if 65 ≤ b ∧ b ≤ 90 then b + 32 else b

/-- Bytes begin with some others below 0x80, in either case. -/
def beginsWith (start bytes : Bytes) : Bool := start.isPrefixOf (bytes.map lowerByte)

theorem lowerByte_high (h : 0x80 ≤ b) : 0x80 ≤ lowerByte b := by
  unfold lowerByte
  rw [if_neg fun hin => ?_]
  · exact h
  · exact absurd (UInt8.le_trans h hin.2) (by decide)

/-- How bytes begin is not changed by reading and writing them. -/
theorem beginsWith_reread {start : Bytes} (h : ∀ b ∈ start, b < 0x80) :
    beginsWith start (reread bytes) = beginsWith start bytes := by
  induction start generalizing bytes with
  | nil => simp [beginsWith]
  | cons s start ih =>
    have hs : s < 0x80 := h s (by simp)
    have hother (b : UInt8) (hb : 0x80 ≤ b) : (s == lowerByte b) = false := by
      rw [beq_eq_false_iff_ne]
      rintro rfl
      exact absurd (UInt8.lt_of_lt_of_le hs (lowerByte_high hb)) (UInt8.lt_irrefl _)
    cases bytes with
    | nil => rw [reread_nil]
    | cons b rest =>
      rcases UInt8.lt_or_le b 0x80 with hlow | hhigh
      · have hrest : beginsWith start (reread rest) = beginsWith start rest :=
          ih fun c hc => h c (List.mem_cons_of_mem _ hc)
        unfold beginsWith at hrest ⊢
        rw [reread_low hlow, List.map_cons, List.map_cons, List.isPrefixOf_cons_cons,
          List.isPrefixOf_cons_cons, hrest]
      · obtain ⟨b', rest', heq, hb'⟩ := reread_high rest hhigh
        unfold beginsWith
        rw [heq, List.map_cons, List.map_cons, List.isPrefixOf_cons_cons, List.isPrefixOf_cons_cons,
          hother b hhigh, hother b' hb', Bool.false_and, Bool.false_and]

end Reread

end FuryBrowser.TextLines
