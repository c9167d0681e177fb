import Mathlib.Algebra.Group.Nat.Defs
import Mathlib.Data.Nat.Init

/-!
# Aligned blocks of bit vectors

A mask of leading ones leaves the first number of an aligned block, and its complement fills in the
last. Two numbers are of one block when they agree without their last bits.
-/

namespace FuryBrowser.AddressBlocks

variable {w k j : ℕ}

/-- Leading ones, and so many zeros. -/
def leadingMask (w k : ℕ) : BitVec w := BitVec.allOnes w <<< k

theorem and_leadingMask (a : BitVec w) (k : ℕ) : a &&& leadingMask w k = (a >>> k) <<< k := by
  ext i hi
  simp only [leadingMask, BitVec.getElem_and, BitVec.getElem_shiftLeft, BitVec.getElem_allOnes,
    BitVec.getElem_ushiftRight]
  by_cases hlow : i < k
  · simp [hlow]
  · have hsum : k + (i - k) = i := by omega
    simp [hlow, hsum, BitVec.getLsbD_eq_getElem hi]

theorem toNat_first (a : BitVec w) (k : ℕ) :
    (a &&& leadingMask w k).toNat = a.toNat / 2 ^ k * 2 ^ k := by
  rw [and_leadingMask, BitVec.toNat_shiftLeft, BitVec.toNat_ushiftRight, Nat.shiftRight_eq_div_pow,
    Nat.shiftLeft_eq]
  exact Nat.mod_eq_of_lt (Nat.lt_of_le_of_lt (Nat.div_mul_le_self _ _) a.isLt)

theorem toNat_leadingMask (hk : k ≤ w) : (leadingMask w k).toNat = 2 ^ w - 2 ^ k := by
  have hones : BitVec.allOnes w &&& leadingMask w k = leadingMask w k := by simp
  rw [← hones, toNat_first, BitVec.toNat_allOnes]
  obtain ⟨m, hm⟩ : ∃ m, w = k + m := ⟨w - k, by omega⟩
  have hpos : 0 < 2 ^ k := Nat.two_pow_pos k
  have hmore : 0 < 2 ^ m := Nat.two_pow_pos m
  have hdiv : (2 ^ k * 2 ^ m - 1) / 2 ^ k = 2 ^ m - 1 := by
    rw [Nat.div_eq_iff hpos]
    constructor
    · rw [Nat.sub_mul, Nat.mul_comm, Nat.one_mul]
      have hle : 2 ^ k ≤ 2 ^ k * 2 ^ m := Nat.le_mul_of_pos_right _ hmore
      omega
    · rw [Nat.sub_mul, Nat.mul_comm, Nat.one_mul]
      have hle : 2 ^ k ≤ 2 ^ k * 2 ^ m := Nat.le_mul_of_pos_right _ hmore
      omega
  rw [hm, Nat.pow_add, hdiv, Nat.sub_mul, Nat.one_mul, Nat.mul_comm]

theorem toNat_last (hk : k ≤ w) (a : BitVec w) :
    (a &&& leadingMask w k ||| ~~~leadingMask w k).toNat =
      a.toNat / 2 ^ k * 2 ^ k + (2 ^ k - 1) := by
  have hapart : (a &&& leadingMask w k) &&& ~~~leadingMask w k = 0 := by
    rw [BitVec.and_assoc, BitVec.and_not_self]
    simp
  have hle : 2 ^ k ≤ 2 ^ w := Nat.pow_le_pow_right (by decide) hk
  rw [← BitVec.add_eq_or_of_and_eq_zero _ _ hapart, BitVec.toNat_add_of_and_eq_zero hapart,
    toNat_first, BitVec.toNat_not, toNat_leadingMask hk]
  omega

/-- Two numbers are of one block when they agree without their last bits. -/
theorem first_eq_iff (a b : BitVec w) (k : ℕ) :
    a &&& leadingMask w k = b &&& leadingMask w k ↔ a.toNat / 2 ^ k = b.toNat / 2 ^ k := by
  rw [← BitVec.toNat_inj, toNat_first, toNat_first]
  exact Nat.mul_left_inj (Nat.ne_of_gt (Nat.two_pow_pos k))

/-- Which is when their leading bits are the same. -/
theorem div_eq_iff_getMsbD (a b : BitVec w) (hk : k ≤ w) :
    a.toNat / 2 ^ k = b.toNat / 2 ^ k ↔ ∀ i < w - k, a.getMsbD i = b.getMsbD i := by
  have hshift (c : BitVec w) : c.toNat / 2 ^ k = (c >>> k).toNat := by
    rw [BitVec.toNat_ushiftRight, Nat.shiftRight_eq_div_pow]
  rw [hshift, hshift, BitVec.toNat_inj]
  constructor
  · intro h i hi
    have hbit := congrArg (fun c : BitVec w => c.getLsbD (w - 1 - i - k)) h
    have hsum : k + (w - 1 - i - k) = w - 1 - i := by omega
    simp only [BitVec.getLsbD_ushiftRight, hsum] at hbit
    rw [BitVec.getMsbD_eq_getLsbD, BitVec.getMsbD_eq_getLsbD, hbit]
  · intro h
    apply BitVec.eq_of_getLsbD_eq
    intro i hi
    rw [BitVec.getLsbD_ushiftRight, BitVec.getLsbD_ushiftRight]
    by_cases hin : k + i < w
    · have hbit := h (w - 1 - (k + i)) (by omega)
      have hsum : w - 1 - (w - 1 - (k + i)) = k + i := by omega
      have hlow : w - 1 - (k + i) < w := by omega
      simpa only [BitVec.getMsbD_eq_getLsbD, hsum, hlow, decide_true, Bool.true_and] using hbit
    · rw [BitVec.getLsbD_of_ge a _ (by omega), BitVec.getLsbD_of_ge b _ (by omega)]

/-- A smaller block lies in one block of a larger kind. -/
theorem div_eq_of_div_eq (h : k ≤ j) {m n : ℕ} (hblock : m / 2 ^ k = n / 2 ^ k) :
    m / 2 ^ j = n / 2 ^ j := by
  obtain ⟨d, rfl⟩ : ∃ d, j = k + d := ⟨j - k, by omega⟩
  rw [Nat.pow_add, ← Nat.div_div_eq_div_mul, ← Nat.div_div_eq_div_mul, hblock]

theorem first_div (h : k ≤ j) (n : ℕ) : n / 2 ^ k * 2 ^ k / 2 ^ j = n / 2 ^ j :=
  div_eq_of_div_eq h (Nat.mul_div_cancel _ (Nat.two_pow_pos k))

theorem last_div (h : k ≤ j) (n : ℕ) : (n / 2 ^ k * 2 ^ k + (2 ^ k - 1)) / 2 ^ j = n / 2 ^ j := by
  have hpos := Nat.two_pow_pos k
  refine div_eq_of_div_eq h ?_
  rw [Nat.mul_comm, Nat.mul_add_div hpos, Nat.div_eq_of_lt (Nat.sub_lt hpos Nat.one_pos),
    Nat.add_zero]

end FuryBrowser.AddressBlocks
