import FuryBrowser.AgentDisk
import Mathlib.Algebra.Group.Nat.Defs

/-!
# Text and its bytes

A text is a list of characters, and its bytes are their UTF-8 encodings. Bytes that are no text are
read all the same: what does not decode becomes a replacement character for each maximal part of a
sequence. A byte below 0x80 is its own character wherever it stands, so reading splits there.
-/

namespace FuryBrowser.TextBytes

open AgentDisk

/-- A text. -/
abbrev Text := List Char

instance : LawfulBEq Text := inferInstanceAs (LawfulBEq (List Char))

/-- What each character passes when it is asked for alone. -/
theorem forall_mem_of_all {p : Char → Prop} [DecidablePred p] {text : Text}
    (h : text.all (p ·) = true) : ∀ c ∈ text, p c :=
  fun c hc => of_decide_eq_true (List.all_eq_true.mp h c hc)

/-- Its bytes. -/
def bytesOf (text : Text) : Bytes := text.flatMap String.utf8EncodeChar

/-- The replacement character. -/
def replacement : Char := '\uFFFD'

/-- What the first byte of a sequence says: how many bytes follow it, its share of the code point,
and the range of the byte after it. -/
def leadOf (b : UInt8) : Option (ℕ × ℕ × UInt8 × UInt8) :=
  if 0xC2 ≤ b ∧ b ≤ 0xDF then some (1, b.toNat - 0xC0, 0x80, 0xBF)
  else if b = 0xE0 then some (2, 0, 0xA0, 0xBF)
  else if b = 0xED then some (2, 0xD, 0x80, 0x9F)
  else if 0xE1 ≤ b ∧ b ≤ 0xEF then some (2, b.toNat - 0xE0, 0x80, 0xBF)
  else if b = 0xF0 then some (3, 0, 0x90, 0xBF)
  else if b = 0xF4 then some (3, 4, 0x80, 0x8F)
  else if 0xF1 ≤ b ∧ b ≤ 0xF3 then some (3, b.toNat - 0xF0, 0x80, 0xBF)
  else none

/-- The rest of a sequence: its character, and how many bytes of the rest it takes. The next byte
is in the given range, those after it in the whole range of continuations. -/
def sequence (acc : ℕ) (low high : UInt8) : ℕ → Bytes → Char × ℕ
  | 0, _ => (.ofNat acc, 0)
  | _ + 1, [] => (replacement, 0)
  | more + 1, b :: rest =>
    if low ≤ b ∧ b ≤ high then
      let (c, taken) := sequence (acc * 64 + (b.toNat - 0x80)) 0x80 0xBF more rest
      (c, taken + 1)
    else (replacement, 0)

/-- The first character of some bytes, and how many bytes after the first it takes. -/
def nextChar (b : UInt8) (rest : Bytes) : Char × ℕ :=
  if b < 0x80 then (.ofNat b.toNat, 0)
  else
    match leadOf b with
    | none => (replacement, 0)
    | some (more, acc, low, high) => sequence acc low high more rest

/-- The characters of some bytes, of which there are at most so many. -/
def lossyUpTo : ℕ → Bytes → Text
  | 0, _ => []
  | _ + 1, [] => []
  | n + 1, b :: rest =>
    let (c, taken) := nextChar b rest
    c :: lossyUpTo n (rest.drop taken)

/-- `String::from_utf8_lossy`. -/
def fromUtf8Lossy (bytes : Bytes) : Text := lossyUpTo bytes.length bytes

/-- `str::trim`. -/
def trimText (text : Text) : Text :=
  ((text.dropWhile isWhiteSpace).reverse.dropWhile isWhiteSpace).reverse

/-- `str::split_once`. -/
def splitOnce (at_ : Char) : Text → Option (Text × Text)
  | [] => none
  | c :: rest =>
    if c = at_ then some ([], rest)
    else (splitOnce at_ rest).map fun (before, after) => (c :: before, after)

/-- `str::split` at a character. -/
def splitAt (at_ : Char) : Text → List Text
  | [] => [[]]
  | c :: rest =>
    if c = at_ then [] :: splitAt at_ rest
    else
      match splitAt at_ rest with
      | [] => [[c]]
      | part :: parts => (c :: part) :: parts

/-- The number that `str::parse` reads into an unsigned type with this maximum. -/
def parseUnsigned (max : ℕ) (text : Text) : Option ℕ :=
  let digits := match text with
    | '+' :: rest => rest
    | _ => text
  (decimalValue digits).filter fun n => n ≤ max

section Bytes

theorem bytesOf_append (a b : Text) : bytesOf (a ++ b) = bytesOf a ++ bytesOf b :=
  List.flatMap_append

theorem bytesOf_cons (c : Char) (text : Text) :
    bytesOf (c :: text) = String.utf8EncodeChar c ++ bytesOf text :=
  List.flatMap_cons

end Bytes

section Lossy

variable {b : UInt8} {acc : ℕ} {low high : UInt8} {more : ℕ} {bytes after : Bytes}

/-- A sequence takes no more than there is. -/
theorem sequence_taken : (sequence acc low high more bytes).2 ≤ bytes.length := by
  induction more generalizing acc low high bytes with
  | zero => simp [sequence]
  | succ more ih =>
    cases bytes with
    | nil => simp [sequence]
    | cons b rest =>
      simp only [sequence]
      split
      · exact Nat.succ_le_succ ih
      · exact Nat.zero_le _

/-- A sequence ends before a byte below 0x80, whatever comes after that. -/
theorem sequence_append (hlow : 0x80 ≤ low) (hb : b < 0x80) :
    sequence acc low high more (bytes ++ b :: after) = sequence acc low high more bytes := by
  induction more generalizing acc low high bytes with
  | zero => rfl
  | succ more ih =>
    cases bytes with
    | nil =>
      have hout : ¬(low ≤ b ∧ b ≤ high) := by
        rintro ⟨hin, -⟩
        exact absurd (UInt8.le_trans hlow hin) (by simpa using hb)
      simp [sequence, hout]
    | cons c rest =>
      rw [List.cons_append]
      simp only [sequence]
      rw [ih (by decide)]

/-- The byte after the first is a continuation. -/
theorem leadOf_low {lead : UInt8} (h : leadOf lead = some (more, acc, low, high)) :
    0x80 ≤ low := by
  unfold leadOf at h
  split_ifs at h
  all_goals
    simp only [Option.some.injEq, Prod.mk.injEq] at h
    obtain ⟨-, -, rfl, -⟩ := h
    decide

theorem nextChar_taken (rest : Bytes) : (nextChar b rest).2 ≤ rest.length := by
  unfold nextChar
  split
  · exact Nat.zero_le _
  · split
    · exact Nat.zero_le _
    · exact sequence_taken

theorem nextChar_append {lead : UInt8} {rest : Bytes} (hb : b < 0x80) :
    nextChar lead (rest ++ b :: after) = nextChar lead rest := by
  unfold nextChar
  split
  · rfl
  · split
    · rfl
    · rename_i hlead
      exact sequence_append (leadOf_low hlead) hb

/-- A bound on the characters that is large enough does not matter. -/
theorem lossyUpTo_eq {n : ℕ} (h : bytes.length ≤ n) : lossyUpTo n bytes = fromUtf8Lossy bytes := by
  induction n using Nat.strong_induction_on generalizing bytes with
  | _ n ih =>
    cases bytes with
    | nil => cases n <;> rfl
    | cons b rest =>
      obtain ⟨n, rfl⟩ : ∃ k, n = k + 1 := ⟨n - 1, by simp at h; omega⟩
      have hrest : rest.length ≤ n := by simpa using h
      have hdrop : (rest.drop (nextChar b rest).2).length ≤ rest.length := by
        rw [List.length_drop]
        omega
      simp only [fromUtf8Lossy, List.length_cons, lossyUpTo]
      rw [ih n (Nat.lt_succ_self n) (Nat.le_trans hdrop hrest)]
      rcases Nat.lt_or_ge rest.length (n + 1) with hlt | hge
      · rw [ih rest.length hlt hdrop]
      · omega

theorem fromUtf8Lossy_cons (rest : Bytes) :
    fromUtf8Lossy (b :: rest) =
      (nextChar b rest).1 :: fromUtf8Lossy (rest.drop (nextChar b rest).2) := by
  simp only [fromUtf8Lossy, List.length_cons, lossyUpTo]
  rw [lossyUpTo_eq (by rw [List.length_drop]; omega), fromUtf8Lossy]

/-- Reading splits at a byte below 0x80. -/
theorem fromUtf8Lossy_append (hb : b < 0x80) :
    fromUtf8Lossy (bytes ++ b :: after) =
      fromUtf8Lossy bytes ++ .ofNat b.toNat :: fromUtf8Lossy after := by
  induction hn : bytes.length using Nat.strong_induction_on generalizing bytes with
  | _ n ih =>
    cases bytes with
    | nil =>
      rw [List.nil_append, fromUtf8Lossy_cons]
      simp [nextChar, hb, fromUtf8Lossy, lossyUpTo]
    | cons lead rest =>
      have htaken := nextChar_taken (b := lead) rest
      have hless : (rest.drop (nextChar lead rest).2).length < n := by
        rw [← hn, List.length_drop, List.length_cons]
        omega
      rw [List.cons_append, fromUtf8Lossy_cons, fromUtf8Lossy_cons, nextChar_append hb,
        List.drop_append_of_le_length htaken, ih _ hless rfl, List.cons_append]

end Lossy

end FuryBrowser.TextBytes
