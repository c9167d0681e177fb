import Mathlib.Data.List.Basic

/-!
# Fields of a byte string

Numbers of two and of four bytes, the high byte first, and a piece of a string that is written in
place: what is before it and behind it stays.
-/

namespace FuryBrowser.ByteFields

section Numbers

/-- Two bytes. -/
def word (hi lo : UInt8) : ℕ := hi.toNat * 256 + lo.toNat

/-- The same of a string. -/
def u16 : List UInt8 → ℕ
  | [hi, lo] => word hi lo
  | _ => 0

/-- A number as two bytes; what does not fit is cut. -/
def bytes16 (n : ℕ) : List UInt8 := [UInt8.ofNat (n / 256), UInt8.ofNat n]

/-- Four bytes. -/
def u32 : List UInt8 → UInt32
  | [a, b, c, d] => UInt32.ofNat (word a b * 65536 + word c d)
  | _ => 0

/-- And back. -/
def bytes32 (v : UInt32) : List UInt8 := bytes16 (v.toNat / 65536) ++ bytes16 v.toNat

theorem word_lt (hi lo : UInt8) : word hi lo < 65536 := by
  have hhi := hi.toNat_lt
  have hlo := lo.toNat_lt
  rw [word]
  omega

theorem word_bytes16 {n : ℕ} (h : n < 65536) :
    word (UInt8.ofNat (n / 256)) (UInt8.ofNat n) = n := by
  rw [word, UInt8.toNat_ofNat', UInt8.toNat_ofNat']
  omega

theorem bytes16_u16 {l : List UInt8} (h : l.length = 2) : bytes16 (u16 l) = l := by
  match l with
  | [hi, lo] =>
    have hhi := hi.toNat_lt
    have hlo := lo.toNat_lt
    have hfirst : UInt8.ofNat (word hi lo / 256) = hi := by
      apply UInt8.toNat_inj.mp
      rw [UInt8.toNat_ofNat', word]
      omega
    have hsecond : UInt8.ofNat (word hi lo) = lo := by
      apply UInt8.toNat_inj.mp
      rw [UInt8.toNat_ofNat', word]
      omega
    rw [u16, bytes16, hfirst, hsecond]

@[simp] theorem length_bytes16 (n : ℕ) : (bytes16 n).length = 2 := rfl

@[simp] theorem length_bytes32 (v : UInt32) : (bytes32 v).length = 4 := rfl

/-- What does not fit into two bytes is cut. -/
theorem bytes16_add (m n : ℕ) : bytes16 (m * 65536 + n) = bytes16 n := by
  have hfirst : UInt8.ofNat ((m * 65536 + n) / 256) = UInt8.ofNat (n / 256) := by
    apply UInt8.toNat_inj.mp
    rw [UInt8.toNat_ofNat', UInt8.toNat_ofNat']
    omega
  have hsecond : UInt8.ofNat (m * 65536 + n) = UInt8.ofNat n := by
    apply UInt8.toNat_inj.mp
    rw [UInt8.toNat_ofNat', UInt8.toNat_ofNat']
    omega
  rw [bytes16, bytes16, hfirst, hsecond]

theorem bytes32_u32 {l : List UInt8} (h : l.length = 4) : bytes32 (u32 l) = l := by
  match l with
  | [a, b, c, d] =>
    have hab := word_lt a b
    have hcd := word_lt c d
    have hval : (u32 [a, b, c, d]).toNat = word a b * 65536 + word c d := by
      rw [u32, UInt32.toNat_ofNat']
      omega
    have hhigh := bytes16_u16 (l := [a, b]) rfl
    have hlow := bytes16_u16 (l := [c, d]) rfl
    rw [u16] at hhigh hlow
    rw [bytes32, hval, show (word a b * 65536 + word c d) / 65536 = word a b by omega, bytes16_add,
      hhigh, hlow]
    rfl

@[simp] theorem u32_bytes32 (v : UInt32) : u32 (bytes32 v) = v := by
  have hv := v.toNat_lt
  apply UInt32.toNat_inj.mp
  simp only [bytes32, bytes16, List.cons_append, List.nil_append, u32, word, UInt8.toNat_ofNat',
    UInt32.toNat_ofNat']
  omega

end Numbers

section Places

variable {α : Type*} {l r bs : List α} {i k : ℕ}

/-- `bs` written from place `i` on. -/
def patch (l : List α) (i : ℕ) (bs : List α) : List α := l.take i ++ bs ++ l.drop (i + bs.length)

theorem length_patch (h : i + bs.length ≤ l.length) : (patch l i bs).length = l.length := by
  simp only [patch, List.length_append, List.length_take, List.length_drop]
  omega

theorem take_patch (h : i ≤ l.length) (hk : k ≤ i) : (patch l i bs).take k = l.take k := by
  rw [patch, List.append_assoc, List.take_append_of_le_length, List.take_take, Nat.min_eq_left hk]
  rw [List.length_take]
  omega

theorem drop_patch (h : i + bs.length ≤ l.length) (hk : i + bs.length ≤ k) :
    (patch l i bs).drop k = l.drop k := by
  have hlen : (l.take i ++ bs).length = i + bs.length := by
    rw [List.length_append, List.length_take]
    omega
  rw [patch, List.drop_append, List.drop_eq_nil_of_le (by omega), List.nil_append, hlen,
    List.drop_drop]
  congr 1
  omega

/-- What is written twice is what was written last. -/
theorem patch_patch {cs : List α} (h : i + bs.length ≤ l.length) (hlen : cs.length = bs.length) :
    patch (patch l i bs) i cs = patch l i cs := by
  have hdrop := drop_patch h (Nat.le_refl (i + bs.length))
  rw [patch, hlen, hdrop, take_patch (by omega) (Nat.le_refl i), patch, hlen]

/-- A write into the first of two pieces. -/
theorem patch_append (h : i + bs.length ≤ l.length) : patch (l ++ r) i bs = patch l i bs ++ r := by
  rw [patch, patch, List.take_append_of_le_length (by omega), List.drop_append_of_le_length h,
    List.append_assoc, List.append_assoc, List.append_assoc]

theorem getElem?_patch_before (h : i ≤ l.length) (hk : k < i) : (patch l i bs)[k]? = l[k]? := by
  rw [patch, List.append_assoc, List.getElem?_append_left (by rw [List.length_take]; omega),
    List.getElem?_take_of_lt hk]

theorem getElem?_patch_behind (h : i + bs.length ≤ l.length) (hk : i + bs.length ≤ k) :
    (patch l i bs)[k]? = l[k]? := by
  have hlen : (l.take i ++ bs).length = i + bs.length := by
    rw [List.length_append, List.length_take]
    omega
  rw [patch, List.getElem?_append_right (by omega), hlen, List.getElem?_drop]
  congr 1
  omega

theorem getElem?_patch_inside (h : i ≤ l.length) (hk : k < bs.length) :
    (patch l i bs)[i + k]? = bs[k]? := by
  have hlen : (l.take i).length = i := by rw [List.length_take]; omega
  rw [patch, List.append_assoc, List.getElem?_append_right (by omega), hlen,
    List.getElem?_append_left (by omega)]
  congr 1
  omega

end Places

end FuryBrowser.ByteFields

/-!
## The checksum of the internet

The words of a byte string are added and the carries added back in. A field that holds the
complement of the sum of everything else makes the sum of the whole all ones: sums are the same
modulo 65535, and only a sum of nothing is zero.
-/

namespace FuryBrowser.InternetChecksum

open ByteFields

/-- The carries of a sum, added back in twice. -/
def fold (n : ℕ) : ℕ := (n / 65536 + n % 65536) / 65536 + (n / 65536 + n % 65536) % 65536

/-- The words of a string, an odd last byte being the high one of a word. -/
def wordSum : List UInt8 → ℕ
  | [] => 0
  | [b] => b.toNat * 256
  | hi :: lo :: rest => word hi lo + wordSum rest

section Folding

variable {n : ℕ}

theorem fold_mod (n : ℕ) : fold n % 65535 = n % 65535 := by
  rw [fold]
  omega

theorem fold_le (h : n < 4294967296) : fold n ≤ 65535 := by
  rw [fold]
  omega

theorem fold_pos (h : 0 < n) : 0 < fold n := by
  rw [fold]
  omega

/-- A sum that is not nothing and a multiple of 65535 folds to all ones. -/
theorem fold_full (h : n < 4294967296) (hpos : 0 < n) (hmod : n % 65535 = 0) : fold n = 65535 := by
  have hle := fold_le h
  have hfold := fold_pos hpos
  have hsame := fold_mod n
  omega

/-- A sum and the complement of what it folds to. -/
theorem fold_add_complement (h : n < 4294901760) : fold (n + (65535 - fold n)) = 65535 := by
  have hle := fold_le (n := n) (by omega)
  have hsame := fold_mod n
  refine fold_full (by omega) ?_ (by omega)
  rcases Nat.eq_zero_or_pos n with rfl | hpos
  · decide
  · omega

/-- The same where a part of the sum has been folded before. -/
theorem fold_add_fold_complement {m : ℕ} (h : m ≤ 65535) (hn : n < 4294901760) :
    fold (m + fold (n + (65535 - fold (m + fold n)))) = 65535 := by
  have hfold := fold_le (n := n) (by omega)
  have hle := fold_le (n := m + fold n) (by omega)
  have hin := fold_mod n
  have hall := fold_mod (m + fold n)
  generalize hc : 65535 - fold (m + fold n) = c
  have hout := fold_mod (n + c)
  have hlast := fold_le (n := n + c) (by omega)
  refine fold_full (by omega) ?_ (by omega)
  rcases Nat.eq_zero_or_pos (n + c) with hzero | hpos
  · have hn0 : n = 0 := by omega
    subst hn0
    have hm : 0 < m := by
      rcases Nat.eq_zero_or_pos m with rfl | hm
      · rw [show fold 0 = 0 from rfl, Nat.add_zero, show fold 0 = 0 from rfl] at hc
        omega
      · exact hm
    omega
  · have := fold_pos hpos
    omega

end Folding

section Words

variable {l r : List UInt8}

/-- A piece of whole words adds up by itself. -/
theorem wordSum_append (h : l.length % 2 = 0) : wordSum (l ++ r) = wordSum l + wordSum r := by
  induction l using wordSum.induct with
  | case1 => simp only [List.nil_append, wordSum, Nat.zero_add]
  | case2 b => cases h
  | case3 hi lo rest ih =>
    have hrest : rest.length % 2 = 0 := by
      rw [List.length_cons, List.length_cons] at h
      omega
    simp only [List.cons_append, wordSum, ih hrest, Nat.add_assoc]

theorem wordSum_bytes16 {n : ℕ} (h : n < 65536) : wordSum (bytes16 n) = n := by
  simp only [bytes16, wordSum, Nat.add_zero, word_bytes16 h]

theorem wordSum_le (l : List UInt8) : wordSum l ≤ 32768 * (l.length + 1) := by
  induction l using wordSum.induct with
  | case1 => exact Nat.zero_le _
  | case2 b =>
    have hb := b.toNat_lt
    simp only [wordSum, List.length_cons, List.length_nil]
    omega
  | case3 hi lo rest ih =>
    have hword := word_lt hi lo
    simp only [wordSum, List.length_cons]
    omega

/-- The words with one of them written in the place of another. -/
theorem wordSum_patch {i n : ℕ} (h : i + 2 ≤ l.length) (hi : i % 2 = 0) (hn : n < 65536) :
    wordSum (patch l i (bytes16 n)) = wordSum (patch l i (bytes16 0)) + n := by
  have htake : (l.take i).length % 2 = 0 := by rwa [List.length_take, Nat.min_eq_left (by omega)]
  have htwo (m : ℕ) : (bytes16 m).length % 2 = 0 := by rw [length_bytes16]
  simp only [patch, length_bytes16, List.append_assoc]
  rw [wordSum_append htake, wordSum_append (htwo n), wordSum_append htake, wordSum_append (htwo 0),
    wordSum_bytes16 hn, wordSum_bytes16 (by decide)]
  omega

end Words

end FuryBrowser.InternetChecksum
