import Mathlib.Data.List.Basic

/-!
# Tables that are read by position

Rows are appended and replaced, and never removed, so a position names a row for good. What is
read after such a change is read off here, as is what two tables have in common whose rows look the
same.
-/

namespace FuryBrowser.IndexedTable

variable {α β : Type*} {rows rows' : List α} {a b : α} {i j : ℕ}

/-- After an append there is what was there, or the new row. -/
theorem concat_cases (h : (rows ++ [a])[i]? = some b) :
    rows[i]? = some b ∨ i = rows.length ∧ b = a := by
  rw [List.getElem?_append] at h
  split at h
  · exact .inl h
  · rename_i hge
    rw [List.getElem?_singleton] at h
    split at h
    · cases h
      exact .inr ⟨by omega, rfl⟩
    · cases h

theorem concat_kept (h : rows[i]? = some b) : (rows ++ [a])[i]? = some b := by
  obtain ⟨hlt, -⟩ := List.getElem?_eq_some_iff.mp h
  rw [List.getElem?_append_left hlt, h]

/-- After a replacement there is what was there, or the replacement. -/
theorem set_cases (h : (rows.set i a)[j]? = some b) :
    j ≠ i ∧ rows[j]? = some b ∨ j = i ∧ b = a := by
  rw [List.getElem?_set] at h
  split at h
  · rename_i heq
    split at h
    · cases h
      exact .inr ⟨heq.symm, rfl⟩
    · cases h
  · rename_i hne
    exact .inl ⟨Ne.symm hne, h⟩

/-- The replacement is there if anything was. -/
theorem set_self (h : rows[i]? = some b) : (rows.set i a)[i]? = some a := by
  obtain ⟨hlt, -⟩ := List.getElem?_eq_some_iff.mp h
  rw [List.getElem?_set_self hlt]

section Views

variable {f : α → β}

/-- A row that is replaced by what looks the same. -/
theorem map_set_same (h : rows[i]? = some b) (hf : f a = f b) :
    (rows.set i a).map f = rows.map f := by
  have hget : (rows.map f)[i]? = some (f a) := by
    rw [List.getElem?_map, h, hf]
    rfl
  obtain ⟨hlt, heq⟩ := List.getElem?_eq_some_iff.mp hget
  rw [List.map_set, ← heq, List.set_getElem_self]

/-- A row that is changed into what looks the same. -/
theorem map_modify_same {g : α → α} (h : ∀ a, rows[i]? = some a → f (g a) = f a) :
    (rows.modify i g).map f = rows.map f := by
  refine List.ext_getElem? fun j => ?_
  rw [List.getElem?_map, List.getElem?_map]
  by_cases hj : i = j
  · rw [← hj, List.getElem?_modify_eq]
    cases ha : rows[i]? with
    | none => rfl
    | some a => exact congrArg some (h a ha)
  · rw [List.getElem?_modify_ne _ _ hj]

/-- Where two tables look the same, their rows do. -/
theorem exists_of_map_eq (h : rows'.map f = rows.map f) (ha : rows'[i]? = some a) :
    ∃ b, rows[i]? = some b ∧ f b = f a := by
  have hview : (rows.map f)[i]? = some (f a) := by
    rw [← h, List.getElem?_map, ha]
    rfl
  rw [List.getElem?_map] at hview
  exact Option.map_eq_some_iff.mp hview

end Views

end FuryBrowser.IndexedTable
