import FuryBrowser.CoreConfig
import Mathlib.Data.Fintype.Card
import Mathlib.Data.Fintype.EquivFin
import Mathlib.SetTheory.Cardinal.Finite

/-!
# The seeds of a profile's streams

Each purpose has a stream of its own, which is seeded from the profile's seed. Every step of
the mixing can be undone, so no two profiles are mixed to the same number, and of the numbers
that are left after the sign bit and what is above it are cut off none is met more often than
another.
-/

namespace FuryBrowser.CoreConfig

open TextBytes
open AgentDisk (utf8)

section Mixing

/-- A number is not its own half, or a smaller part of itself. -/
theorem eq_zero_of_shiftRight {d k : UInt64} (hk : 0 < k.toNat % 64) (h : d = d >>> k) : d = 0 := by
  have hnat : d.toNat = d.toNat / 2 ^ (k.toNat % 64) := by
    conv_lhs => rw [h]
    rw [UInt64.toNat_shiftRight, Nat.shiftRight_eq_div_pow]
  have hpow : 1 < 2 ^ (k.toNat % 64) := Nat.one_lt_two_pow hk.ne'
  have hzero : d.toNat = 0 := by
    by_contra hne
    have hless := Nat.div_lt_self (Nat.pos_of_ne_zero hne) hpow
    omega
  exact UInt64.toNat_inj.mp hzero

theorem xorShift_injective {k : UInt64} (hk : 0 < k.toNat % 64) :
    Function.Injective fun z : UInt64 => z ^^^ (z >>> k) := by
  intro x y h
  have hboth : (x ^^^ y) ^^^ ((x >>> k) ^^^ (y >>> k)) = 0 := by
    calc (x ^^^ y) ^^^ ((x >>> k) ^^^ (y >>> k))
        = (x ^^^ (x >>> k)) ^^^ (y ^^^ (y >>> k)) := by ac_rfl
      _ = 0 := UInt64.xor_eq_zero_iff.mpr h
  have hshift : x ^^^ y = (x ^^^ y) >>> k := by
    rw [UInt64.shiftRight_xor]
    exact UInt64.xor_eq_zero_iff.mp hboth
  exact UInt64.xor_eq_zero_iff.mp (eq_zero_of_shiftRight hk hshift)

/-- A factor that has an inverse can be undone. -/
theorem mul_injective {c d : UInt64} (h : c * d = 1) : Function.Injective fun z : UInt64 => z * c := by
  intro x y hxy
  calc x = x * (c * d) := by rw [h, UInt64.mul_one]
    _ = x * c * d := (UInt64.mul_assoc ..).symm
    _ = y * c * d := congrArg (· * d) hxy
    _ = y * (c * d) := UInt64.mul_assoc ..
    _ = y := by rw [h, UInt64.mul_one]

/-- Every step of SplitMix64 can be undone. -/
theorem mix_injective : Function.Injective mix := by
  have hadd : Function.Injective fun z : UInt64 => z + 0x9e3779b97f4a7c15 :=
    fun x y h => (UInt64.add_left_inj _).mp h
  have hfirst := mul_injective (c := 0xbf58476d1ce4e5b9) (d := 0x96de1b173f119089) (by decide)
  have hsecond := mul_injective (c := 0x94d049bb133111eb) (d := 0x319642b2d24d8ec3) (by decide)
  exact (xorShift_injective (k := 31) (by decide)).comp
    (hsecond.comp ((xorShift_injective (k := 27) (by decide)).comp
      (hfirst.comp ((xorShift_injective (k := 30) (by decide)).comp hadd))))

/-- The number a purpose's stream starts from, before the sign is cut off. -/
def stream (purpose : String) (seed : UInt64) : UInt64 :=
  mix ((utf8 purpose).foldl (fun h byte => mix (h ^^^ byte.toUInt64)) seed)

theorem subSeed_eq (seed : UInt64) (purpose : String) :
    subSeed seed purpose = (stream purpose seed).toNat % 2 ^ 31 := by
  unfold subSeed stream
  rw [UInt64.toNat_and]
  exact Nat.and_two_pow_sub_one_eq_mod _ 31

/-- Two profiles do not share a stream. -/
theorem stream_injective (purpose : String) : Function.Injective (stream purpose) := by
  have hfold (bytes : List UInt8) : Function.Injective fun seed : UInt64 =>
      bytes.foldl (fun h byte => mix (h ^^^ byte.toUInt64)) seed := by
    induction bytes with
    | nil => exact Function.injective_id
    | cons byte bytes ih =>
      have hstep : Function.Injective fun h : UInt64 => mix (h ^^^ byte.toUInt64) :=
        fun x y h => (UInt64.xor_left_inj _).mp (mix_injective h)
      exact ih.comp hstep
  exact mix_injective.comp (hfold (utf8 purpose))

theorem stream_bijective (purpose : String) : Function.Bijective (stream purpose) := by
  have hfinite : Finite UInt64 :=
    Finite.of_injective UInt64.toFin fun _ _ h => UInt64.toFin_inj.mp h
  exact Finite.injective_iff_bijective.mp (stream_injective purpose)

end Mixing

section Uniform

/-- The numbers with the same 31 low bits. -/
def residues (v : ℕ) (hv : v < 2 ^ 31) : {x : UInt64 // x.toNat % 2 ^ 31 = v} ≃ Fin (2 ^ 33) where
  toFun x := ⟨x.1.toNat / 2 ^ 31, by have := x.1.toNat_lt; omega⟩
  invFun i := ⟨.ofNat (i * 2 ^ 31 + v), by
    have hi := i.isLt
    rw [UInt64.toNat_ofNat']
    omega⟩
  left_inv x := by
    obtain ⟨x, hx⟩ := x
    refine Subtype.ext (UInt64.toNat_inj.mp ?_)
    have hlt := x.toNat_lt
    dsimp only
    rw [UInt64.toNat_ofNat']
    omega
  right_inv i := by
    have hi := i.isLt
    refine Fin.ext ?_
    dsimp only
    rw [UInt64.toNat_ofNat']
    omega

/-- Of one purpose, every seed the core can be given comes from as many profiles as any
other. -/
theorem subSeed_uniform (purpose : String) (v : ℕ) (hv : v < 2 ^ 31) :
    Nat.card {seed : UInt64 // subSeed seed purpose = v} = 2 ^ 33 := by
  have hseeds : {seed : UInt64 // subSeed seed purpose = v} ≃
      {x : UInt64 // x.toNat % 2 ^ 31 = v} :=
    (Equiv.ofBijective _ (stream_bijective purpose)).subtypeEquiv fun seed => by
      rw [subSeed_eq]
      rfl
  calc Nat.card {seed : UInt64 // subSeed seed purpose = v}
      = Nat.card (Fin (2 ^ 33)) := Nat.card_congr (hseeds.trans (residues v hv))
    _ = 2 ^ 33 := by simp

/-- As many profiles as any other number have the number seven for their canvas. -/
theorem subSeed_uniform_seven : Nat.card {seed : UInt64 // subSeed seed "canvas" = 7} = 2 ^ 33 :=
  subSeed_uniform "canvas" 7 (by decide)

end Uniform

end FuryBrowser.CoreConfig
