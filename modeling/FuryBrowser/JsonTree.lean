import Mathlib.Data.Rat.Defs

/-!
# Values in JSON

A value is read by the names on the way to a part of it, and written by them: what is not
there yet is created. A list of such assignments is made one after another, and what it
leaves under a name depends on the assignments below that name alone.
-/

namespace FuryBrowser.JsonTree

/-- A value. -/
inductive Json where
  | null
  /-- `true` or `false`. -/
  | bool (b : Bool)
  | num (q : ℚ)
  | str (s : String)
  | arr (items : List Json)
  | obj (fields : List (String × Json))

/-- An assignment to the part of a value that a path leads to. -/
abbrev Assignment := List String × Json

namespace Json

variable {k j : String} {ks : List String} {v c node : Json} {rows : List Assignment}

/-- It is `null`. -/
def isNull : Json → Bool
  | null => true
  | _ => false

/-- The fields of an object. -/
def fields : Json → List (String × Json)
  | obj fs => fs
  | _ => []

/-- The field of an object with a name. -/
def get (key : String) (c : Json) : Option Json := c.fields.lookup key

/-- The part a path leads to. -/
def find : List String → Json → Option Json
  | [], c => some c
  | key :: path, c => (c.get key).bind (find path)

/-- The fields without one of them. -/
def without (key : String) (fs : List (String × Json)) : List (String × Json) :=
  fs.filter fun f => f.1 ≠ key

/-- The part a path leads to is assigned; objects on the way are created. -/
def put : Json → List String → Json → Json
  | _, [], v => v
  | c, key :: path, v =>
    obj ((key, put ((c.get key).getD null) path v) :: without key c.fields)

/-- One assignment after another. -/
def assign (rows : List Assignment) (c : Json) : Json := rows.foldl (fun c a => c.put a.1 a.2) c

/-- The assignments below a name. -/
def under (key : String) (rows : List Assignment) : List Assignment :=
  rows.filterMap fun a =>
    match a.1 with
    | [] => none
    | k :: path => if k = key then some (path, a.2) else none

/-- No assignment replaces the whole value. -/
def rooted (rows : List Assignment) : Bool := rows.all fun a => a.1 ≠ []

/-- `get_mut` and `as_object_mut`: the fields of an object below a name are changed. -/
def edit (key : String) (f : List (String × Json) → List (String × Json)) (c : Json) : Json :=
  match c.get key with
  | some (obj fs) => c.put [key] (obj (f fs))
  | _ => c

/-- `Map::insert`. -/
def insert (key : String) (v : Json) (fs : List (String × Json)) : List (String × Json) :=
  (key, v) :: without key fs

@[simp] theorem isNull_null : null.isNull = true := rfl
@[simp] theorem isNull_bool (b : Bool) : (bool b).isNull = false := rfl
@[simp] theorem isNull_num (q : ℚ) : (num q).isNull = false := rfl
@[simp] theorem isNull_str (s : String) : (str s).isNull = false := rfl
@[simp] theorem isNull_arr (items : List Json) : (arr items).isNull = false := rfl
@[simp] theorem isNull_obj (fs : List (String × Json)) : (obj fs).isNull = false := rfl

@[simp] theorem fields_obj (fs : List (String × Json)) : (obj fs).fields = fs := rfl

@[simp] theorem get_obj_nil (k : String) : (obj []).get k = none := rfl

@[simp] theorem get_obj_cons (k i : String) (v : Json) (fs : List (String × Json)) :
    (obj ((i, v) :: fs)).get k = if k = i then some v else (obj fs).get k := by
  by_cases hk : k = i
  · simp [get, hk]
  · have hki : (k == i) = false := by simpa using hk
    simp [get, List.lookup_cons, hki, hk]

theorem isNull_of_fields (h : c.fields ≠ []) : c.isNull = false := by
  cases c with
  | null => exact absurd rfl h
  | _ => rfl

theorem lookup_without (fs : List (String × Json)) (h : j ≠ k) :
    (without k fs).lookup j = fs.lookup j := by
  induction fs with
  | nil => rfl
  | cons f fs ih =>
    obtain ⟨i, v⟩ := f
    by_cases hi : i = k
    · have hj : (j == k) = false := by simpa using h
      simpa [without, hi, List.lookup_cons, hj] using ih
    · cases hji : j == i with
      | true => simp [without, hi, List.lookup_cons, hji]
      | false => simpa [without, hi, List.lookup_cons, hji] using ih

@[simp] theorem find_nil (c : Json) : c.find [] = some c := rfl

@[simp] theorem find_cons (k : String) (ks : List String) (c : Json) :
    c.find (k :: ks) = (c.get k).bind (find ks) := rfl

@[simp] theorem put_nil (c v : Json) : c.put [] v = v := by
  cases c <;> rfl

@[simp] theorem assign_nil (c : Json) : c.assign [] = c := rfl

theorem get_put_self : (c.put (k :: ks) v).get k = some (((c.get k).getD null).put ks v) := by
  simp [put, get, fields]

theorem get_put_other (h : j ≠ k) : (c.put (k :: ks) v).get j = c.get j := by
  have hj : (j == k) = false := by simpa using h
  simp [put, get, fields, List.lookup_cons, hj, lookup_without _ h]

section Under

variable {α : Type}

@[simp] theorem under_nil (k : String) : under k [] = [] := rfl

@[simp] theorem under_cons (k i : String) (path : List String) (v : Json)
    (rows : List Assignment) :
    under k ((i :: path, v) :: rows) =
      if i = k then (path, v) :: under k rows else under k rows := by
  by_cases hi : i = k <;> simp [under, hi]

@[simp] theorem under_append (k : String) (rows later : List Assignment) :
    under k (rows ++ later) = under k rows ++ under k later :=
  List.filterMap_append

@[simp] theorem under_ite (k : String) (P : Prop) [Decidable P] (rows later : List Assignment) :
    under k (if P then rows else later) = if P then under k rows else under k later :=
  apply_ite ..

@[simp] theorem elim_same (o : Option α) {β : Type} (b : β) : (o.elim b fun _ => b) = b := by
  cases o <;> rfl

@[simp] theorem under_elim (k : String) (o : Option α) (f : α → List Assignment) :
    under k (o.elim [] f) = o.elim [] fun x => under k (f x) := by
  cases o <;> rfl

@[simp] theorem under_map (k i : String) (xs : List α) (path : α → List String) (v : α → Json) :
    under k (xs.map fun x => (i :: path x, v x)) =
      if i = k then xs.map fun x => (path x, v x) else [] := by
  induction xs with
  | nil => simp
  | cons x xs ih =>
    by_cases hi : i = k
    · simpa [hi] using ih
    · simpa [hi] using ih

@[simp] theorem rooted_nil : rooted [] = true := rfl

@[simp] theorem rooted_cons (i : String) (path : List String) (v : Json)
    (rows : List Assignment) : rooted ((i :: path, v) :: rows) = rooted rows := rfl

@[simp] theorem rooted_append (rows later : List Assignment) :
    rooted (rows ++ later) = (rooted rows && rooted later) :=
  List.all_append

@[simp] theorem rooted_ite (P : Prop) [Decidable P] (rows later : List Assignment) :
    rooted (if P then rows else later) = if P then rooted rows else rooted later :=
  apply_ite ..

@[simp] theorem rooted_elim (o : Option α) (f : α → List Assignment) :
    rooted (o.elim [] f) = o.elim true fun x => rooted (f x) := by
  cases o <;> rfl

@[simp] theorem rooted_map (i : α → String) (xs : List α) (path : α → List String)
    (v : α → Json) : rooted (xs.map fun x => (i x :: path x, v x)) = true := by
  simp [rooted]

end Under

@[simp] theorem get_put (k j : String) (ks : List String) (v c : Json) :
    (c.put (k :: ks) v).get j =
      if j = k then some (((c.get k).getD null).put ks v) else c.get j := by
  by_cases h : j = k
  · simp [h, get_put_self]
  · simp [h, get_put_other h]

@[simp] theorem isNull_put (k : String) (ks : List String) (v c : Json) :
    (c.put (k :: ks) v).isNull = false := rfl

@[simp] theorem assign_cons (path : List String) (v c : Json) (rows : List Assignment) :
    c.assign ((path, v) :: rows) = (c.put path v).assign rows := rfl

/-- What is assigned below a name is assigned in what the name leads to. -/
theorem get_assign (h : rooted rows) (hnode : c.get k = some node) :
    (c.assign rows).get k = some (node.assign (under k rows)) := by
  induction rows generalizing c node with
  | nil => exact hnode
  | cons a rows ih =>
    obtain ⟨path, v⟩ := a
    cases path with
    | nil => simp [rooted] at h
    | cons i path =>
      by_cases hi : i = k
      · subst hi
        have hget : (c.put (i :: path) v).get i = some (node.put path v) := by
          rw [get_put_self, hnode]; rfl
        simpa [assign, under] using ih h hget
      · have hget : (c.put (i :: path) v).get k = some node := by
          rw [get_put_other fun hk => hi hk.symm, hnode]
        simpa [assign, under, hi] using ih h hget

/-- Without an assignment below a name, what is there stays. -/
theorem get_assign_of_under (h : rooted rows) (hunder : under k rows = []) :
    (c.assign rows).get k = c.get k := by
  induction rows generalizing c with
  | nil => rfl
  | cons a rows ih =>
    obtain ⟨path, v⟩ := a
    cases path with
    | nil => simp [rooted] at h
    | cons i path =>
      by_cases hi : i = k
      · simp [under, hi] at hunder
      · have hget : (c.put (i :: path) v).get k = c.get k :=
          get_put_other fun hk => hi hk.symm
        rw [← hget]
        exact ih h (by simpa [under, hi] using hunder)

/-- A name that leads nowhere leads to what is assigned below it, if anything. -/
theorem get_assign_of_none (h : rooted rows) (hnone : c.get k = none) :
    (c.assign rows).get k =
      match under k rows with
      | [] => none
      | (path, v) :: later => some ((null.put path v).assign later) := by
  induction rows generalizing c with
  | nil => exact hnone
  | cons a rows ih =>
    obtain ⟨names, w⟩ := a
    have hrows : rooted rows := by
      cases names with
      | nil => simp [rooted] at h
      | cons => exact h
    cases names with
    | nil => simp [rooted] at h
    | cons i names =>
      by_cases hi : i = k
      · subst hi
        have hget : (c.put (i :: names) w).get i = some (null.put names w) := by
          rw [get_put_self, hnone]; rfl
        simpa using get_assign hrows hget
      · have hget : (c.put (i :: names) w).get k = none := by
          rw [get_put_other fun hk => hi hk.symm, hnone]
        simpa [hi] using ih hrows hget

/-- What assignments leave has fields. -/
theorem fields_assign_ne_nil (h : rooted rows) (hrows : rows ≠ []) :
    (c.assign rows).fields ≠ [] := by
  obtain ⟨earlier, ⟨path, w⟩, rfl⟩ := (List.eq_nil_or_concat rows).resolve_left hrows
  cases path with
  | nil => simp [rooted] at h
  | cons i path => simp [assign, put]

theorem get_edit_other {f : List (String × Json) → List (String × Json)} (h : j ≠ k) :
    (c.edit k f).get j = c.get j := by
  unfold edit
  split
  next => exact get_put_other h
  next => rfl

theorem get_edit_self {f : List (String × Json) → List (String × Json)}
    {fs : List (String × Json)} (h : c.get k = some (obj fs)) :
    (c.edit k f).get k = some (obj (f fs)) := by
  simp [edit, h, get_put_self]

end Json

end FuryBrowser.JsonTree
