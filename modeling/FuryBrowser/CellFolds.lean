import Mathlib.Data.List.Nodup

/-!
# Loops that work on one cell at a time

A loop over distinct cells changes a buffer. What one cell holds afterwards is what the step
for that cell made of it, if the steps for other cells leave it alone.
-/

namespace FuryBrowser.CellFolds

universe u v w

variable {B : Type u} {K : Type v} {C : Type w}

/-- The other steps of a loop leave a cell alone. -/
structure Local (step : B → K → B) (good : B → Prop) (cell : K) (read : B → C) : Prop where
  /-- The shape of the buffer is kept. -/
  kept : ∀ b k, good b → good (step b k)
  /-- What the cell holds is kept by the steps for others. -/
  other : ∀ b k, good b → k ≠ cell → read (step b k) = read b

variable {step : B → K → B} {good : B → Prop} {cell : K} {read : B → C}

/-- A loop that never comes to the cell leaves it alone. -/
theorem foldl_not_mem (h : Local step good cell read) {cells : List K} {b : B} (hb : good b)
    (hcell : cell ∉ cells) : read (cells.foldl step b) = read b := by
  induction cells generalizing b with
  | nil => rfl
  | cons k cells ih =>
    have hk : k ≠ cell := fun heq => hcell (heq ▸ List.mem_cons_self)
    have hrest : cell ∉ cells := fun hmem => hcell (List.mem_cons_of_mem k hmem)
    rw [List.foldl_cons, ih (h.kept b k hb) hrest, h.other b k hb hk]

/-- A loop that comes to the cell once does to it what the cell's step does. -/
theorem foldl_mem (h : Local step good cell read) {cells : List K} {b : B} (hb : good b)
    (hnodup : cells.Nodup) (hcell : cell ∈ cells) {before after : C} (hread : read b = before)
    (hown : ∀ b, good b → read b = before → read (step b cell) = after) :
    read (cells.foldl step b) = after := by
  induction cells generalizing b with
  | nil => cases hcell
  | cons k cells ih =>
    obtain ⟨hk, hrest⟩ := List.nodup_cons.mp hnodup
    rw [List.foldl_cons]
    rcases List.mem_cons.mp hcell with rfl | hmem
    · rw [foldl_not_mem h (h.kept b cell hb) hk]
      exact hown b hb hread
    · have hother : k ≠ cell := fun heq => hk (heq ▸ hmem)
      exact ih (h.kept b k hb) hrest hmem ((h.other b k hb hother).trans hread)

end FuryBrowser.CellFolds
