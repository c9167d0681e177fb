import Mathlib.Data.Set.Basic
import FuryBrowser.OrgKeys

/-!
# Permissions as bits

A permission set is a 64-bit word with one bit for each of ten capabilities.
Granting, capping and checking are the word operations `|||`, `&&&` and a test of
one bit. Read as sets of capabilities they are union, intersection and
membership, and that is how everything above this module reasons about them.
-/

namespace FuryBrowser.Permissions

open OrgKeys

/-- A single capability. -/
inductive Perm where
  /-- See the project and its profiles. -/
  | view
  | launch
  /-- Rename, retag, edit notes and start options. -/
  | editProfile
  /-- Change persona, seed and overrides. -/
  | editFingerprint
  /-- Attach or detach a proxy. -/
  | editProxy
  /-- See passwords and proxy credentials. -/
  | revealSecrets
  /-- Export cookies or the whole bundle. -/
  | exportCookies
  | createProfile
  | deleteProfile
  /-- Grant access to others, and force-unlock a profile. -/
  | manageAccess
  deriving DecidableEq, Repr

/-- `PermSet`, an `i64` of which the ten lowest bits are used. -/
abbrev PermSet := BitVec 64

/-- The place of a capability's bit. -/
def Perm.bit : Perm → ℕ
  | .view => 0
  | .launch => 1
  | .editProfile => 2
  | .editFingerprint => 3
  | .editProxy => 4
  | .revealSecrets => 5
  | .exportCookies => 6
  | .createProfile => 7
  | .deleteProfile => 8
  | .manageAccess => 9

/-- Its value. -/
def Perm.value (p : Perm) : PermSet := BitVec.twoPow 64 p.bit

/-- `Perm::ALL`. -/
def Perm.all : List Perm :=
  [.view, .launch, .editProfile, .editFingerprint, .editProxy, .revealSecrets, .exportCookies,
    .createProfile, .deleteProfile, .manageAccess]

namespace PermSet

/-- `PermSet::NONE`. -/
def none : PermSet := 0

/-- `PermSet::from_iter`. -/
def fromIter (perms : List Perm) : PermSet := perms.foldl (fun acc p => acc ||| p.value) 0

/-- `PermSet::all`. -/
def all : PermSet := fromIter Perm.all

/-- `has`. -/
def has (s : PermSet) (p : Perm) : Bool := s &&& p.value != 0

/-- `with`. -/
def insert (s : PermSet) (p : Perm) : PermSet := s ||| p.value

/-- `without`. -/
def without (s : PermSet) (p : Perm) : PermSet := s &&& ~~~p.value

/-- `intersect`. -/
def intersect (s t : PermSet) : PermSet := s &&& t

/-- Every bit of one set is in the other. -/
def Within (s t : PermSet) : Prop := s &&& t = s

instance (s t : PermSet) : Decidable (Within s t) := inferInstanceAs (Decidable (_ = _))

end PermSet

open PermSet

/-- `role_ceiling`: a plain member never manages access. -/
def roleCeiling : Role → PermSet
  | .owner | .admin | .manager => all
  | .member => all.without .manageAccess

/-- `has_implicit_project_access`. -/
def hasImplicitProjectAccess : Role → Bool
  | .owner | .admin => true
  | .manager | .member => false

/-- `effective`: what a role makes of a grant. -/
def effective (role : Role) (grant : Option PermSet) : PermSet :=
  if hasImplicitProjectAccess role then all
  else match grant with
    | some g => g.intersect (roleCeiling role)
    | Option.none => PermSet.none

section Bits

variable {s t r : PermSet} {p q : Perm}

theorem Perm.bit_lt (p : Perm) : p.bit < 64 := by
  cases p <;> decide

theorem Perm.getLsbD_value (i : ℕ) : p.value.getLsbD i = decide (p.bit = i) := by
  simp [Perm.value, p.bit_lt]

/-- Holding a capability is having its bit. -/
theorem has_eq : s.has p = s.getLsbD p.bit := by
  have hvalue : p.value ≠ 0 := by
    intro hzero
    have hbit := congrArg (fun v => v.getLsbD p.bit) hzero
    simp [Perm.getLsbD_value] at hbit
  unfold has
  have hand : s &&& p.value = if s.getLsbD p.bit then p.value else 0 := BitVec.and_twoPow s p.bit
  rw [hand]
  cases s.getLsbD p.bit with
  | true => simpa using hvalue
  | false => rfl

@[simp] theorem has_none : PermSet.none.has p = false := by
  rw [has_eq]
  exact BitVec.getLsbD_zero

@[simp] theorem has_or : (s ||| t : PermSet).has p = (s.has p || t.has p) := by
  simp [has_eq]

@[simp] theorem has_intersect : (s.intersect t).has p = (s.has p && t.has p) := by
  simp [has_eq, PermSet.intersect]

theorem PermSet.Within.bit (h : s.Within t) {i : ℕ} (hi : s.getLsbD i = true) :
    t.getLsbD i = true := by
  have hbit := congrArg (fun v => v.getLsbD i) h
  simpa [hi] using hbit

/-- A set without other bits is smaller. -/
theorem within_of_bits (h : ∀ i, s.getLsbD i = true → t.getLsbD i = true) : s.Within t := by
  refine BitVec.eq_of_getLsbD_eq fun i _ => ?_
  cases hs : s.getLsbD i with
  | true => simp [hs, h i hs]
  | false => simp [hs]

theorem PermSet.Within.refl (s : PermSet) : s.Within s := BitVec.and_self

theorem PermSet.Within.trans (h : s.Within t) (h' : t.Within r) : s.Within r :=
  within_of_bits fun _ hi => h'.bit (h.bit hi)

theorem PermSet.Within.has (h : s.Within t) (hp : s.has p = true) : t.has p = true := by
  rw [has_eq] at hp ⊢
  exact h.bit hp

theorem PermSet.Within.or (h : s.Within r) (h' : t.Within r) : PermSet.Within (s ||| t) r := by
  refine within_of_bits fun i hi => ?_
  rcases Bool.or_eq_true_iff.mp (BitVec.getLsbD_or ▸ hi) with hi | hi
  · exact h.bit hi
  · exact h'.bit hi

theorem within_or_left : s.Within (s ||| t) :=
  within_of_bits fun i hi => by simp [hi]

theorem within_or_right : t.Within (s ||| t) :=
  within_of_bits fun i hi => by simp [hi]

theorem intersect_within_left : (s.intersect t).Within s :=
  within_of_bits fun i hi => by
    simp only [PermSet.intersect, BitVec.getLsbD_and, Bool.and_eq_true] at hi
    exact hi.1

theorem intersect_within_right : (s.intersect t).Within t :=
  within_of_bits fun i hi => by
    simp only [PermSet.intersect, BitVec.getLsbD_and, Bool.and_eq_true] at hi
    exact hi.2

theorem none_within : PermSet.none.Within s := BitVec.zero_and

/-- What is listed is among all capabilities. -/
theorem fromIter_within_all (perms : List Perm) : (fromIter perms).Within all := by
  have hvalue : ∀ p : Perm, p.value.Within all := by
    intro p
    cases p <;> decide
  have hfold : ∀ acc : PermSet, acc.Within all →
      PermSet.Within (perms.foldl (fun acc p => acc ||| p.value) acc) all := by
    induction perms with
    | nil => exact fun acc h => h
    | cons q rest ih => exact fun acc h => ih _ (h.or (hvalue q))
  exact hfold 0 none_within

/-- Every bit that is used is a capability's. -/
theorem perm_of_all {i : ℕ} (h : all.getLsbD i = true) : ∃ p : Perm, p.bit = i := by
  have hlt : i < 64 := BitVec.lt_of_getLsbD h
  have hten : ∀ i < 64, all.getLsbD i = true → ∃ p ∈ Perm.all, p.bit = i := by decide
  obtain ⟨p, _, hp⟩ := hten i hlt h
  exact ⟨p, hp⟩

/-- Among known capabilities, one set is within another when the other holds each. -/
theorem within_of_has (h : s.Within all) (hhas : ∀ p, s.has p = true → t.has p = true) :
    s.Within t := by
  refine within_of_bits fun i hi => ?_
  obtain ⟨p, rfl⟩ := perm_of_all (h.bit hi)
  rw [← has_eq] at hi ⊢
  exact hhas p hi

/-- Whoever may not manage access stays within what a plain member may hold. -/
theorem within_member (h : s.Within all) (hm : s.has .manageAccess = false) :
    s.Within (roleCeiling .member) := by
  refine within_of_bits fun i hi => ?_
  have hall := h.bit hi
  have hne : Perm.manageAccess.bit ≠ i := by
    intro heq
    rw [has_eq, heq, hi] at hm
    cases hm
  have hbit : Perm.manageAccess.value.getLsbD i = false := by
    rw [Perm.getLsbD_value]
    exact decide_eq_false hne
  have hlt : i < 64 := BitVec.lt_of_getLsbD hi
  have hwithout : (all.without .manageAccess).getLsbD i = true := by
    simp only [PermSet.without, BitVec.getLsbD_and, BitVec.getLsbD_not, hall, hbit, hlt,
      decide_true, Bool.not_false, Bool.and_self]
  exact hwithout

theorem roleCeiling_within_all (role : Role) : (roleCeiling role).Within all := by
  cases role <;> decide

/-- `effective` never passes the ceiling of the role. -/
theorem effective_within (role : Role) (grant : Option PermSet) :
    (effective role grant).Within (roleCeiling role) := by
  unfold effective
  split
  · rename_i himplicit
    cases role <;> first | exact Within.refl _ | cases himplicit
  · cases grant with
    | none => exact none_within
    | some g => exact intersect_within_right

end Bits

end FuryBrowser.Permissions
