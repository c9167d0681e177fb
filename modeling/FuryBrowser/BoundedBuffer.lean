import Mathlib.Data.List.Basic

/-!
# Buffers of a fixed size

A first-in first-out buffer that never holds more than it has room for. What is put in is taken as
far as there is room, so a writer has to look at how much of it was; what is taken out comes from
the front.
-/

namespace FuryBrowser.BoundedBuffer

/-- A buffer with room for so many items. -/
structure Buffer (α : Type*) (cap : ℕ) where
  /-- What is in it, the oldest first. -/
  items : List α
  fits : items.length ≤ cap
  deriving DecidableEq

variable {α : Type*} {cap : ℕ}

namespace Buffer

/-- Nothing is in it. -/
def empty : Buffer α cap := ⟨[], Nat.zero_le cap⟩

/-- How much more there is room for. -/
def room (b : Buffer α cap) : ℕ := cap - b.items.length

/-- As much as there is room for is put in. -/
def enqueue (b : Buffer α cap) (l : List α) : Buffer α cap where
  items := b.items ++ l.take b.room
  fits := by
    have hfits := b.fits
    rw [List.length_append, List.length_take, room]
    omega

/-- What comes out first. -/
def front (b : Buffer α cap) (n : ℕ) : List α := b.items.take n

/-- What is left then. -/
def dequeue (b : Buffer α cap) (n : ℕ) : Buffer α cap where
  items := b.items.drop n
  fits := by
    have hfits := b.fits
    rw [List.length_drop]
    omega

/-- Nothing more can be put in. -/
def isFull (b : Buffer α cap) : Bool := b.room = 0

section Laws

variable {b : Buffer α cap} {l : List α} {n : ℕ}

@[simp] theorem items_empty : (empty : Buffer α cap).items = [] := rfl

@[simp] theorem items_dequeue : (b.dequeue n).items = b.items.drop n := rfl

/-- Where there is room everything is put in. -/
theorem items_enqueue (h : l.length ≤ b.room) : (b.enqueue l).items = b.items ++ l := by
  have htake : l.take b.room = l := List.take_of_length_le h
  exact congrArg (b.items ++ ·) htake

/-- What comes out and what is left is what was there. -/
theorem front_append_dequeue (b : Buffer α cap) (n : ℕ) :
    b.front n ++ (b.dequeue n).items = b.items := List.take_append_drop n b.items

/-- Everything comes out of a buffer that holds no more than that. -/
theorem items_dequeue_eq_nil (h : b.items.length ≤ n) : (b.dequeue n).items = [] :=
  List.drop_eq_nil_of_le h

end Laws

end Buffer

end FuryBrowser.BoundedBuffer
