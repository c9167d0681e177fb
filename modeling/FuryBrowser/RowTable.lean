import Mathlib.Data.List.Nodup

/-!
# Tables as lists of rows

A table is a list of rows, and its statements are the ones of a relational
store: update or delete every row that matches, and look one up by its key.
The lemmas say which rows a statement leaves, and that a statement which does
not touch the key leaves keys unique.
-/

namespace FuryBrowser.RowTable

universe u v w

variable {ρ : Type u} {κ : Type v}

/-- `UPDATE … SET f WHERE p`. -/
def updateWhere (p : ρ → Bool) (f : ρ → ρ) (rows : List ρ) : List ρ :=
  rows.map fun r => if p r then f r else r

/-- `DELETE … WHERE p`. -/
def deleteWhere (p : ρ → Bool) (rows : List ρ) : List ρ :=
  rows.filter fun r => !p r

/-- No two rows have the same key. -/
def KeyUnique (key : ρ → κ) (rows : List ρ) : Prop :=
  (rows.map key).Nodup

section Rows

variable {p : ρ → Bool} {f : ρ → ρ} {rows : List ρ} {r : ρ}

theorem mem_updateWhere :
    r ∈ updateWhere p f rows ↔ ∃ old ∈ rows, (if p old then f old else old) = r := by
  simp [updateWhere]

@[simp] theorem mem_deleteWhere : r ∈ deleteWhere p rows ↔ r ∈ rows ∧ p r = false := by
  simp [deleteWhere]

/-- An updated row is an old one, changed when it matched. -/
theorem updateWhere_cases (h : r ∈ updateWhere p f rows) :
    (r ∈ rows ∧ p r = false) ∨ ∃ old ∈ rows, p old = true ∧ r = f old := by
  obtain ⟨old, hold, heq⟩ := mem_updateWhere.mp h
  cases hp : p old with
  | true =>
    rw [hp, if_pos rfl] at heq
    exact .inr ⟨old, hold, hp, heq.symm⟩
  | false =>
    rw [hp, if_neg (by simp)] at heq
    exact .inl (heq ▸ ⟨hold, hp⟩)

/-- A row that does not match survives an update. -/
theorem mem_updateWhere_of_not (h : r ∈ rows) (hp : p r = false) : r ∈ updateWhere p f rows :=
  mem_updateWhere.mpr ⟨r, h, by simp [hp]⟩

/-- A row that matches is there changed. -/
theorem mem_updateWhere_of (h : r ∈ rows) (hp : p r = true) : f r ∈ updateWhere p f rows :=
  mem_updateWhere.mpr ⟨r, h, by simp [hp]⟩

end Rows

section Keys

variable {key : ρ → κ} {p : ρ → Bool} {f : ρ → ρ} {rows : List ρ}

theorem keyUnique_nil : KeyUnique key ([] : List ρ) := List.nodup_nil

theorem KeyUnique.eq {a b : ρ} (h : KeyUnique key rows) (ha : a ∈ rows) (hb : b ∈ rows)
    (hk : key a = key b) : a = b :=
  List.inj_on_of_nodup_map h ha hb hk

/-- A row with a new key keeps keys unique. -/
theorem KeyUnique.cons {r : ρ} (h : KeyUnique key rows) (hr : ∀ s ∈ rows, key s ≠ key r) :
    KeyUnique key (r :: rows) := by
  refine List.nodup_cons.mpr ⟨?_, h⟩
  rw [List.mem_map]
  rintro ⟨s, hs, heq⟩
  exact hr s hs heq

theorem KeyUnique.deleteWhere (h : KeyUnique key rows) :
    KeyUnique key (RowTable.deleteWhere p rows) :=
  h.sublist (List.filter_sublist.map key)

/-- An update that leaves the key alone keeps keys unique. -/
theorem KeyUnique.updateWhere (h : KeyUnique key rows)
    (hf : ∀ r, p r = true → key (f r) = key r) : KeyUnique key (RowTable.updateWhere p f rows) := by
  have hmap : (RowTable.updateWhere p f rows).map key = rows.map key := by
    unfold RowTable.updateWhere
    rw [List.map_map]
    refine List.map_congr_left fun r _ => ?_
    by_cases hp : p r
    · simp [hp, hf r hp]
    · simp [hp]
  unfold KeyUnique
  rw [hmap]
  exact h

/-- Putting one new row in the place of the row with some key keeps any other key
unique that the new row does not share. -/
theorem KeyUnique.replace [DecidableEq κ] {κ' : Type w} {other : ρ → κ'} {r : ρ} {k : κ}
    (h : KeyUnique key rows) (ho : KeyUnique other rows) (hr : ∀ s ∈ rows, other s ≠ other r) :
    KeyUnique other (RowTable.updateWhere (fun s => key s = k) (fun _ => r) rows) := by
  induction rows with
  | nil => exact keyUnique_nil
  | cons s rows ih =>
    obtain ⟨hs, hrest⟩ := List.nodup_cons.mp h
    obtain ⟨hos, horest⟩ := List.nodup_cons.mp ho
    have hrows : ∀ t ∈ rows, other t ≠ other r := fun t ht => hr t (List.mem_cons_of_mem _ ht)
    by_cases hk : key s = k
    · -- No other row has the key, so the rest stays as it is.
      have hsame : RowTable.updateWhere (fun s => key s = k) (fun _ => r) rows = rows := by
        refine List.map_congr_left (fun t ht => ?_) |>.trans (List.map_id rows)
        have hne : key t ≠ k := fun heq => hs (List.mem_map.mpr ⟨t, ht, heq.trans hk.symm⟩)
        simp [hne]
      have hcons : RowTable.updateWhere (fun s => key s = k) (fun _ => r) (s :: rows) =
          r :: rows := by
        unfold RowTable.updateWhere at hsame ⊢
        rw [List.map_cons, hsame]
        simp [hk]
      rw [hcons]
      exact KeyUnique.cons horest hrows
    · have hcons : RowTable.updateWhere (fun s => key s = k) (fun _ => r) (s :: rows) =
          s :: RowTable.updateWhere (fun s => key s = k) (fun _ => r) rows := by
        simp [RowTable.updateWhere, hk]
      rw [hcons]
      refine KeyUnique.cons (ih hrest horest hrows) fun t ht => ?_
      rcases updateWhere_cases ht with ⟨hin, _⟩ | ⟨_, _, _, rfl⟩
      · exact fun heq => hos (List.mem_map.mpr ⟨t, hin, heq⟩)
      · exact fun heq => hr s List.mem_cons_self heq.symm

end Keys

section Lookup

variable [DecidableEq κ] {key : ρ → κ} {rows : List ρ} {k : κ} {r : ρ}

/-- `SELECT … WHERE key = k`. -/
def lookup (key : ρ → κ) (rows : List ρ) (k : κ) : Option ρ :=
  rows.find? fun r => key r = k

theorem lookup_some (h : lookup key rows k = some r) : r ∈ rows ∧ key r = k :=
  ⟨List.mem_of_find?_eq_some h, by simpa using List.find?_some h⟩

theorem lookup_none (h : lookup key rows k = none) : ∀ r ∈ rows, key r ≠ k := by
  simpa [lookup] using h

/-- With unique keys a row is the one its key finds. -/
theorem lookup_of_mem (h : KeyUnique key rows) (hr : r ∈ rows) :
    lookup key rows (key r) = some r := by
  cases hl : lookup key rows (key r) with
  | none => exact absurd rfl (lookup_none hl r hr)
  | some s =>
    obtain ⟨hs, hk⟩ := lookup_some hl
    rw [h.eq hs hr hk]

theorem lookup_updateWhere {p : ρ → Bool} {f : ρ → ρ}
    (hf : ∀ r, p r = true → key (f r) = key r) :
    lookup key (updateWhere p f rows) k =
      (lookup key rows k).map fun r => if p r then f r else r := by
  unfold lookup updateWhere
  rw [List.find?_map]
  congr 2
  funext r
  by_cases hp : p r
  · simp [hp, hf r hp]
  · simp [hp]

/-- A lookup still finds a row that is not deleted. -/
theorem lookup_deleteWhere {p : ρ → Bool} (h : lookup key rows k = some r) (hp : p r = false) :
    lookup key (deleteWhere p rows) k = some r := by
  induction rows with
  | nil => cases h
  | cons s rows ih =>
    unfold lookup deleteWhere at *
    by_cases hk : key s = k
    · have heq : s = r := by simpa [hk] using h
      subst heq
      simp [hp, hk]
    · have hrest : rows.find? (fun r => key r = k) = some r := by simpa [hk] using h
      by_cases hs : p s = true
      · simpa [hs] using ih hrest
      · simpa [hs, hk] using ih hrest

/-- A lookup does not see that other rows are deleted. -/
theorem lookup_deleteWhere_of {p : ρ → Bool} (hp : ∀ r, key r = k → p r = false) :
    lookup key (deleteWhere p rows) k = lookup key rows k := by
  unfold lookup deleteWhere
  rw [List.find?_filter]
  congr 1
  funext r
  by_cases hk : key r = k
  · simp [hk, hp r hk]
  · simp [hk]

/-- `INSERT … ON CONFLICT (key) DO UPDATE`. -/
def put (key : ρ → κ) (r : ρ) (rows : List ρ) : List ρ :=
  r :: deleteWhere (fun s => key s = key r) rows

theorem mem_put {s : ρ} : s ∈ put key r rows ↔ s = r ∨ (s ∈ rows ∧ key s ≠ key r) := by
  simp [put]

theorem KeyUnique.put (h : KeyUnique key rows) : KeyUnique key (RowTable.put key r rows) :=
  h.deleteWhere.cons fun s hs => by simpa using (mem_deleteWhere.mp hs).2

@[simp] theorem lookup_put_self : lookup key (put key r rows) (key r) = some r := by
  simp [lookup, put]

/-- Putting a row leaves what other keys find. -/
theorem lookup_put_of_ne (h : k ≠ key r) : lookup key (put key r rows) k = lookup key rows k := by
  have hne : key r ≠ k := fun heq => h heq.symm
  have hrest : lookup key (deleteWhere (fun s => key s = key r) rows) k = lookup key rows k :=
    lookup_deleteWhere_of fun s hs => by simpa [hs] using h
  rw [← hrest]
  exact List.find?_cons_of_neg (by simpa using hne)

end Lookup

section Counts

variable [DecidableEq κ] {key : ρ → κ} {p : ρ → Bool} {rows : List ρ} {r : ρ}

/-- An update that matches no row changes nothing. -/
theorem updateWhere_of_not {f : ρ → ρ} (h : ∀ s ∈ rows, p s = false) :
    updateWhere p f rows = rows := by
  refine (List.map_congr_left fun s hs => ?_).trans (List.map_id rows)
  simp [h s hs]

theorem deleteWhere_of_not (h : ∀ s ∈ rows, p s = false) : deleteWhere p rows = rows :=
  List.filter_eq_self.mpr fun s hs => by simp [h s hs]

theorem KeyUnique.tail_ne {s : ρ} (h : KeyUnique key (s :: rows)) :
    ∀ t ∈ rows, decide (key t = key s) = false := by
  obtain ⟨hs, _⟩ := List.nodup_cons.mp h
  intro t ht
  rw [decide_eq_false_iff_not]
  exact fun heq => hs (List.mem_map.mpr ⟨t, ht, heq⟩)

/-- Deleting a row by its key takes it out of every count. -/
theorem countP_deleteWhere (h : KeyUnique key rows) (hr : r ∈ rows) (q : ρ → Bool) :
    (deleteWhere (fun s => key s = key r) rows).countP q + (if q r then 1 else 0) =
      rows.countP q := by
  induction rows with
  | nil => cases hr
  | cons s rows ih =>
    by_cases hk : key s = key r
    · obtain rfl := h.eq List.mem_cons_self hr hk
      have hdelete : deleteWhere (fun t => key t = key s) (s :: rows) = rows := by
        have hrest := deleteWhere_of_not h.tail_ne
        unfold deleteWhere at hrest ⊢
        simpa using hrest
      rw [hdelete, List.countP_cons]
    · have hin : r ∈ rows := (List.mem_cons.mp hr).resolve_left fun heq => hk (heq ▸ rfl)
      have hdelete : deleteWhere (fun t => key t = key r) (s :: rows) =
          s :: deleteWhere (fun t => key t = key r) rows := by
        simp [deleteWhere, hk]
      have hcount := ih (List.nodup_cons.mp h).2 hin
      rw [hdelete, List.countP_cons, List.countP_cons]
      omega

/-- Changing a row by its key counts it as what it becomes. -/
theorem countP_updateWhere (h : KeyUnique key rows) (hr : r ∈ rows) (f : ρ → ρ) (q : ρ → Bool) :
    (updateWhere (fun s => key s = key r) f rows).countP q + (if q r then 1 else 0) =
      rows.countP q + if q (f r) then 1 else 0 := by
  induction rows with
  | nil => cases hr
  | cons s rows ih =>
    by_cases hk : key s = key r
    · obtain rfl := h.eq List.mem_cons_self hr hk
      have hupdate : updateWhere (fun t => key t = key s) f (s :: rows) = f s :: rows := by
        have hrest := updateWhere_of_not (f := f) h.tail_ne
        unfold updateWhere at hrest ⊢
        rw [List.map_cons, hrest]
        simp
      rw [hupdate, List.countP_cons, List.countP_cons]
      omega
    · have hin : r ∈ rows := (List.mem_cons.mp hr).resolve_left fun heq => hk (heq ▸ rfl)
      have hupdate : updateWhere (fun t => key t = key r) f (s :: rows) =
          s :: updateWhere (fun t => key t = key r) f rows := by
        simp [updateWhere, hk]
      have hcount := ih (List.nodup_cons.mp h).2 hin
      rw [hupdate, List.countP_cons, List.countP_cons]
      omega

end Counts

end FuryBrowser.RowTable
