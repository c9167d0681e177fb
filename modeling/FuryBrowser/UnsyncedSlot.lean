import Mathlib.Data.Int.Basic

/-!
# What one machine keeps of a team profile

Purpose of the two small files beside a profile directory, apart from how they
are stored. A slot holds the directory's content, the server version it was
recorded as, the version an unsent session started from, and the copies moved
aside. Content is any type; an unpack lays a bundle over it.

`decidePull` is the rule a launch follows, and `pull` is everything a launch
does with the server's answer.
-/

namespace FuryBrowser.UnsyncedSlot

universe u

/-- What a launch does with the server's bundle. -/
inductive Pull where
  /-- Unpack it: the local copy has nothing the server lacks. -/
  | unpack
  /-- Keep the local copy: it is the server's version plus a session the server
  never received. -/
  | keepLocal
  /-- Both moved: keep the local copy aside, then unpack the server's. -/
  | setAsideThenUnpack
  deriving DecidableEq, Repr

/-- `unsynced::decide`: `localBase` is the marker's version, `server` the
version on offer. -/
def decidePull (localBase : Option ℤ) (server : ℤ) : Pull :=
  match localBase with
  | none => .unpack
  | some base => if base = server then .keepLocal else .setAsideThenUnpack

/-- The local copy is unpacked over in place only when no session of it is
marked as unsent. -/
theorem decidePull_unpack_iff {localBase : Option ℤ} {server : ℤ} :
    decidePull localBase server = .unpack ↔ localBase = none := by
  cases localBase with
  | none => simp [decidePull]
  | some base =>
    by_cases h : base = server <;> simp [decidePull, h]

/-- The local copy is kept only against the version it grew from. -/
theorem decidePull_keepLocal_iff {localBase : Option ℤ} {server : ℤ} :
    decidePull localBase server = .keepLocal ↔ localBase = some server := by
  cases localBase with
  | none => simp [decidePull]
  | some base =>
    by_cases h : base = server <;> simp [decidePull, h]

/-- An answer of the server to a request for a bundle. -/
inductive Answer (C : Type u) where
  /-- The version this machine said it holds is the current one. -/
  | unchanged (version : ℤ)
  /-- The current version and its content. -/
  | bundle (content : C) (version : ℤ)
  /-- The profile has no bundle yet. -/
  | nothing
  deriving DecidableEq, Repr

/-- One profile as one machine keeps it. -/
structure Slot (C : Type u) where
  /-- The profile directory's content, when the directory exists. -/
  dir : Option C
  /-- The server version the directory was recorded as. -/
  version : Option ℤ
  /-- The version an unsent session started from. -/
  unsynced : Option ℤ
  /-- Copies moved out of the way, newest first. -/
  aside : List C
  deriving DecidableEq, Repr

namespace Slot

variable {C : Type u} (s : Slot C)

/-- `create_dir_all` on the profile directory. -/
def createDir (empty : C) : Slot C := { s with dir := some (s.dir.getD empty) }

/-- `unsynced::held`: the recorded version, believed only beside a directory. -/
def held : Option ℤ := if s.dir.isSome then s.version else none

/-- `unsynced::record_held`. -/
def recordHeld (version : ℤ) : Slot C := { s with version := some version }

/-- `unsynced::mark`. -/
def mark (baseVersion : ℤ) : Slot C := { s with unsynced := some baseVersion }

/-- `unsynced::clear`. -/
def clear : Slot C := { s with unsynced := none }

/-- `unsynced::set_aside`: move the copy away and forget both records. -/
def setAside : Option (Slot C) :=
  s.dir.map fun content =>
    { dir := none, version := none, unsynced := none, aside := content :: s.aside }

/-- The directory after a bundle is laid over it. -/
def overlaid (overlay : C → C → C) (bundle : C) : C :=
  match s.dir with
  | none => bundle
  | some old => overlay bundle old

/-- `bundle::unpack`, when it goes through. -/
def unpack (overlay : C → C → C) (bundle : C) : Slot C :=
  { s with dir := some (s.overlaid overlay bundle) }

/-- The slot a bundle is unpacked into: itself, or the empty one left when the
copy is moved aside. `none` keeps the local copy. -/
def unpackTarget (version : ℤ) : Option (Slot C) :=
  if s.held = some version then none
  else match decidePull s.unsynced version with
    | .unpack => some s
    | .keepLocal => none
    | .setAsideThenUnpack => s.setAside

/-- What a launch does with the server's answer, and the version the session
then grows from. -/
def pull (overlay : C → C → C) : Answer C → Slot C × ℤ
  | .unchanged version => (s, version)
  | .nothing => (s, 0)
  | .bundle content version =>
    match s.unpackTarget version with
    | none => (s, version)
    | some target => ((target.unpack overlay content).recordHeld version, version)

@[simp] theorem createDir_unsynced (empty : C) : (s.createDir empty).unsynced = s.unsynced := rfl

@[simp] theorem createDir_dir (empty : C) :
    (s.createDir empty).dir = some (s.dir.getD empty) := rfl

/-- Once the directory is made, the recorded version is always believed. -/
@[simp] theorem held_createDir (empty : C) : (s.createDir empty).held = s.version := rfl

/-- A bundle is unpacked in place, or into the empty slot left by moving the
copy aside; never when the version is the one held. -/
theorem unpackTarget_some {s target : Slot C} {version : ℤ}
    (h : s.unpackTarget version = some target) :
    s.held ≠ some version ∧
      ((s.unsynced = none ∧ target = s) ∨
        ∃ base content, s.unsynced = some base ∧ base ≠ version ∧ s.dir = some content ∧
          target = ⟨none, none, none, content :: s.aside⟩) := by
  unfold unpackTarget at h
  split_ifs at h with hh
  refine ⟨hh, ?_⟩
  cases hu : s.unsynced with
  | none =>
    left
    simp only [hu, decidePull, Option.some.injEq] at h
    exact ⟨rfl, h.symm⟩
  | some base =>
    right
    by_cases hb : base = version
    · simp [hu, decidePull, hb] at h
    · simp only [hu, decidePull, if_neg hb] at h
      obtain ⟨content, hd, rfl⟩ := Option.map_eq_some_iff.mp h
      exact ⟨base, content, rfl, hb, hd, rfl⟩

/-- The copy beside an existing directory is kept only at the held version or at
the version its unsent session started from. -/
theorem unpackTarget_none {s : Slot C} {version : ℤ} (h : s.unpackTarget version = none)
    (hd : s.dir.isSome = true) : s.held = some version ∨ s.unsynced = some version := by
  unfold unpackTarget at h
  split_ifs at h with hh
  · exact .inl hh
  · right
    split at h
    · cases h
    next hk => exact decidePull_keepLocal_iff.mp hk
    · simp only [setAside, Option.map_eq_none_iff] at h
      rw [h] at hd
      cases hd

end Slot

end FuryBrowser.UnsyncedSlot
