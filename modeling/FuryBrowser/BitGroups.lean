import Mathlib.Algebra.Group.Nat.Defs
import Mathlib.Data.Nat.Basic

/-!
# Bits written in groups and cut into octets

A number written in so many bits, the most significant first. A code of small groups of bits is
read by joining the groups and cutting the whole into octets; what is left at the end is dropped.
-/

namespace FuryBrowser.BitGroups

/-- The lowest `k` bits of a number, the most significant first. -/
def writeBits : ℕ → ℕ → List Bool
  | 0, _ => []
  | k + 1, v => decide (v / 2 ^ k % 2 = 1) :: writeBits k v

/-- The number that bits spell, the most significant first. -/
def readBits (bits : List Bool) : ℕ := bits.foldl (fun v b => 2 * v + b.toNat) 0

/-- The octets of a list of bits, with what does not fill one dropped. -/
def octets : List Bool → List UInt8
  | a :: b :: c :: d :: e :: f :: g :: h :: rest =>
    .ofNat (readBits [a, b, c, d, e, f, g, h]) :: octets rest
  | _ => []

@[simp] theorem length_writeBits (k v : ℕ) : (writeBits k v).length = k := by
  induction k with
  | zero => rfl
  | succ k ih => rw [writeBits, List.length_cons, ih]

/-- Bits above those written are not looked at. -/
theorem writeBits_add_mul (k : ℕ) {j : ℕ} (hkj : k ≤ j) (a v : ℕ) :
    writeBits k (a * 2 ^ j + v) = writeBits k v := by
  induction k with
  | zero => rfl
  | succ k ih =>
    have hsplit : a * 2 ^ j = 2 ^ k * (2 * (a * 2 ^ (j - (k + 1)))) := by
      obtain ⟨i, rfl⟩ := Nat.exists_eq_add_of_le hkj
      rw [Nat.add_sub_cancel_left, Nat.pow_add, Nat.pow_succ]
      rw [Nat.mul_comm (2 ^ k) 2, Nat.mul_assoc 2, Nat.mul_left_comm a, Nat.mul_left_comm a,
        Nat.mul_left_comm 2]
    have hhead : (a * 2 ^ j + v) / 2 ^ k % 2 = v / 2 ^ k % 2 := by
      rw [hsplit, Nat.mul_add_div (Nat.two_pow_pos k)]
      omega
    rw [writeBits, writeBits, hhead, ih (by omega)]

/-- A remainder keeps the bits below its modulus. -/
theorem writeBits_mod {k j : ℕ} (hkj : k ≤ j) (v : ℕ) :
    writeBits k (v % 2 ^ j) = writeBits k v := by
  have hv := writeBits_add_mul k hkj (v / 2 ^ j) (v % 2 ^ j)
  rwa [Nat.mul_comm, Nat.div_add_mod, eq_comm] at hv

/-- What is written may be cut anywhere, the upper part by a shift. -/
theorem writeBits_append (m k v : ℕ) :
    writeBits (m + k) v = writeBits m (v >>> k) ++ writeBits k v := by
  induction m with
  | zero => rw [Nat.zero_add, writeBits, List.nil_append]
  | succ m ih =>
    have hbit : v / 2 ^ (m + k) = (v >>> k) / 2 ^ m := by
      rw [Nat.shiftRight_eq_div_pow, Nat.div_div_eq_div_mul, ← Nat.pow_add, Nat.add_comm k m]
    rw [Nat.succ_add, writeBits, writeBits, hbit, ih, List.cons_append]

/-- A group put below what is there already. -/
theorem writeBits_below (m k a : ℕ) {v : ℕ} (hv : v < 2 ^ k) :
    writeBits (m + k) (a * 2 ^ k + v) = writeBits m a ++ writeBits k v := by
  have hshift : (a * 2 ^ k + v) >>> k = a := by
    rw [Nat.shiftRight_eq_div_pow, Nat.mul_comm, Nat.mul_add_div (Nat.two_pow_pos k),
      Nat.div_eq_of_lt hv, Nat.add_zero]
  rw [writeBits_append, hshift, writeBits_add_mul k (Nat.le_refl k)]

private theorem spell (m v : ℕ) : m * 2 + (decide (v % 2 = 1)).toNat = m * 2 + v % 2 := by
  rcases Nat.mod_two_eq_zero_or_one v with h | h <;> rw [h] <;> rfl

/-- The bits that were written spell the number again. -/
theorem foldl_writeBits (k m v : ℕ) :
    (writeBits k v).foldl (fun v b => 2 * v + b.toNat) m = m * 2 ^ k + v % 2 ^ k := by
  induction k generalizing m with
  | zero => rw [writeBits, List.foldl_nil, Nat.pow_zero, Nat.mul_one, Nat.mod_one, Nat.add_zero]
  | succ k ih =>
    rw [writeBits, List.foldl_cons, ih, Nat.mul_comm 2 m, spell, Nat.pow_succ, Nat.mod_mul,
      Nat.add_mul, Nat.mul_comm (v / 2 ^ k % 2), Nat.mul_assoc m, Nat.mul_comm 2, Nat.add_assoc,
      Nat.add_comm (v % 2 ^ k)]

/-- Eight bits and more give their octet first. -/
theorem octets_writeBits (v : ℕ) (rest : List Bool) :
    octets (writeBits 8 v ++ rest) = .ofNat v :: octets rest := by
  have hread : readBits (writeBits 8 v) = v % 256 := by
    rw [readBits, foldl_writeBits, Nat.zero_mul, Nat.zero_add]
    rfl
  have hbyte : UInt8.ofNat (readBits (writeBits 8 v)) = .ofNat v := by
    rw [hread]
    apply UInt8.toNat_inj.mp
    rw [UInt8.toNat_ofNat', UInt8.toNat_ofNat', Nat.mod_mod]
  rw [← hbyte]
  rfl

theorem octets_short {bits : List Bool} (h : bits.length < 8) : octets bits = [] := by
  rw [octets]
  rintro a b c d e f g i rest rfl
  simp at h
  omega

end FuryBrowser.BitGroups
