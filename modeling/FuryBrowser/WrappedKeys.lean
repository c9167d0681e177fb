import Mathlib.Data.List.Nodup
import FuryBrowser.RowTable

/-!
# Keys that wrap keys

A value is wrapped under a key and a nonce, opens under that key alone, and is moved to
another key by opening it and wrapping it again. Keys are derived from keys; two keys derived
for one purpose are the same only if what they are derived from is.

A table of wrapped values is carried over from an old key to a new one by writing, for each row
that the old key opens, what it opens to, wrapped anew. Rows that it does not open stay.
-/

namespace FuryBrowser.WrappedKeys

open RowTable

universe u v w x y z

/-- Wrapping and derivation, as far as it is relied on. -/
structure KeyScheme (κ : Type u) (η : Type v) (β : Type w) (ν : Type x) (π : Type y) where
  /-- Wraps a value under a key and a nonce. -/
  wrap : κ → η → ν → β
  unwrap : κ → β → Option ν
  /-- Derives a key for a purpose and an id. -/
  derive : κ → String → ℕ → κ
  /-- Seals a value to a public key, if that can be sealed to. -/
  sealTo : π → η → ν → Option β
  ofKey : κ → ν
  toKey : ν → Option κ
  /-- What is wrapped opens to what it was. -/
  unwrap_wrap : ∀ k n v, unwrap k (wrap k n v) = some v
  /-- It opens under one key. -/
  opensOnce : ∀ {k k' b v v'}, unwrap k b = some v → unwrap k' b = some v' → k = k'
  /-- Derived keys do not collide. -/
  derive_inj : ∀ {k k' label id id'}, derive k label id = derive k' label id' → k = k' ∧ id = id'
  toKey_ofKey : ∀ k, toKey (ofKey k) = some k

section Scheme

variable {κ : Type u} {η : Type v} {β : Type w} {ν : Type x} {π : Type y}
variable {K : KeyScheme κ η β ν π} {k k' : κ} {b : β} {v v' : ν} {n : η}

/-- What is wrapped under a key opens under that one, to what it was. -/
theorem KeyScheme.unwrap_wrap_iff : K.unwrap k' (K.wrap k n v) = some v' ↔ k' = k ∧ v' = v := by
  constructor
  · intro h
    obtain rfl := K.opensOnce h (K.unwrap_wrap k n v)
    exact ⟨rfl, Option.some.inj (h.symm.trans (K.unwrap_wrap k' n v))⟩
  · rintro ⟨rfl, rfl⟩
    exact K.unwrap_wrap k' n v'

end Scheme

section Carrying

variable {ρ : Type u} {β : Type v} {υ : Type w}

/-- Writes, row by row, each of a list of values to the row of its id. -/
def write (id : ρ → ℕ) (set : β → ρ → ρ) (writes : List (ℕ × β)) (r : ρ) : ρ :=
  writes.foldl (fun r w => if id r = w.1 then set w.2 r else r) r

/-- What is carried over: each row that opens, with what it opens to wrapped anew. -/
def carried (id : ρ → ℕ) (opens : ρ → Option υ) (rewrap : ρ → υ → β) (rows : List ρ) :
    List (ℕ × β) :=
  rows.filterMap fun r => (opens r).map fun v => (id r, rewrap r v)

/-- The rows that do not open. -/
def leftOver (id : ρ → ℕ) (opens : ρ → Option υ) (rows : List ρ) : List ℕ :=
  (rows.filter fun r => (opens r).isNone).map id

variable {id : ρ → ℕ} {set : β → ρ → ρ} {writes : List (ℕ × β)} {r : ρ} {b : β}

theorem write_of_not_mem (h : id r ∉ writes.map Prod.fst) : write id set writes r = r := by
  induction writes with
  | nil => rfl
  | cons w writes ih =>
    have hne : id r ≠ w.1 := fun heq => h (heq ▸ List.mem_cons_self)
    unfold write
    rw [List.foldl_cons, if_neg hne]
    exact ih fun hin => h (List.mem_cons_of_mem _ hin)

theorem write_of_mem (hset : ∀ b r, id (set b r) = id r) (hids : (writes.map Prod.fst).Nodup)
    (h : (id r, b) ∈ writes) : write id set writes r = set b r := by
  induction writes with
  | nil => cases h
  | cons w writes ih =>
    obtain ⟨hnot, hrest⟩ := List.nodup_cons.mp hids
    unfold write
    rw [List.foldl_cons]
    rcases List.mem_cons.mp h with rfl | hin
    · rw [if_pos rfl]
      exact write_of_not_mem (by rw [hset]; exact hnot)
    · have hne : id r ≠ w.1 := by
        intro heq
        exact hnot (heq ▸ List.mem_map.mpr ⟨(id r, b), hin, rfl⟩)
      rw [if_neg hne]
      exact ih hrest hin

theorem id_write (hset : ∀ b r, id (set b r) = id r) : id (write id set writes r) = id r := by
  induction writes generalizing r with
  | nil => rfl
  | cons w writes ih =>
    unfold write
    rw [List.foldl_cons]
    have hstep : id (if id r = w.1 then set w.2 r else r) = id r := by
      split
      · exact hset w.2 r
      · rfl
    exact ih.trans hstep

theorem keyUnique_write {rows : List ρ} (h : KeyUnique id rows)
    (hset : ∀ b r, id (set b r) = id r) : KeyUnique id (rows.map (write id set writes)) := by
  have hsame : (rows.map (write id set writes)).map id = rows.map id := by
    rw [List.map_map]
    exact List.map_congr_left fun r _ => id_write hset
  unfold KeyUnique
  rw [hsame]
  exact h

/-- What holds of the row of an id after writing is what holds of the row as it is written. -/
theorem exists_written {rows : List ρ} {P : ρ → Prop} (hids : KeyUnique id rows)
    (hset : ∀ b r, id (set b r) = id r) (hr : r ∈ rows) :
    (∃ s ∈ rows.map (write id set writes), id s = id r ∧ P s) ↔ P (write id set writes r) := by
  constructor
  · rintro ⟨s, hs, hid, h⟩
    obtain ⟨t, ht, rfl⟩ := List.mem_map.mp hs
    obtain rfl := hids.eq ht hr ((id_write hset).symm.trans hid)
    exact h
  · exact fun h => ⟨_, List.mem_map.mpr ⟨r, hr, rfl⟩, id_write hset, h⟩

variable {opens : ρ → Option υ} {rewrap : ρ → υ → β} {rows : List ρ}

theorem mem_carried {w : ℕ × β} : w ∈ carried id opens rewrap rows ↔
    ∃ r ∈ rows, ∃ v, opens r = some v ∧ w = (id r, rewrap r v) := by
  unfold carried
  simp only [List.mem_filterMap, Option.map_eq_some_iff]
  constructor
  · rintro ⟨r, hr, v, hv, rfl⟩
    exact ⟨r, hr, v, hv, rfl⟩
  · rintro ⟨r, hr, v, hv, rfl⟩
    exact ⟨r, hr, v, hv, rfl⟩

theorem carried_ids (h : KeyUnique id rows) :
    ((carried id opens rewrap rows).map Prod.fst).Nodup := by
  induction rows with
  | nil => exact List.nodup_nil
  | cons r rows ih =>
    obtain ⟨hnot, hrest⟩ := List.nodup_cons.mp h
    have htail := ih hrest
    unfold carried at htail ⊢
    cases hv : opens r with
    | none =>
      rw [List.filterMap_cons_none (by rw [hv]; rfl)]
      exact htail
    | some v =>
      rw [List.filterMap_cons_some (b := (id r, rewrap r v)) (by rw [hv]; rfl), List.map_cons]
      refine List.nodup_cons.mpr ⟨fun hin => hnot ?_, htail⟩
      obtain ⟨w, hw, heq⟩ := List.mem_map.mp hin
      obtain ⟨s, hs, _, _, rfl⟩ := mem_carried.mp hw
      have hid : id s = id r := heq
      exact hid ▸ List.mem_map.mpr ⟨s, hs, rfl⟩

/-- What opened under the current key opens to the same under the new one exactly when the rows
that were carried over had it, and the old key opened it to that. -/
theorem carried_iff (id : ρ → ℕ) (set : β → ρ → ρ) (current opens new : ρ → Option υ)
    (rewrap : ρ → υ → β) (fits : ρ → ρ → Prop) {rows rows' : List ρ}
    (hids : KeyUnique id rows) (hset : ∀ b r, id (set b r) = id r)
    (hnew : ∀ s r v v', id s = id r → (new (set (rewrap s v) r) = some v' ↔ fits s r ∧ v' = v))
    (hstale : ∀ r v, current r = some v → new r ≠ some v) :
    (∀ r ∈ rows', ∀ v, current r = some v →
        new (write id set (carried id opens rewrap rows) r) = some v) ↔
      ∀ r ∈ rows', ∀ v, current r = some v →
        ∃ s ∈ rows, id s = id r ∧ fits s r ∧ opens s = some v := by
  refine forall₂_congr fun r _ => forall₂_congr fun v hv => ?_
  constructor
  · intro h
    by_cases hin : id r ∈ (carried id opens rewrap rows).map Prod.fst
    · obtain ⟨w, hw, hid⟩ := List.mem_map.mp hin
      obtain ⟨s, hs, v', hv', rfl⟩ := mem_carried.mp hw
      have hw : (id r, rewrap s v') ∈ carried id opens rewrap rows := hid ▸ hw
      rw [write_of_mem hset (carried_ids hids) hw] at h
      obtain ⟨hfits, rfl⟩ := (hnew s r v' v hid).mp h
      exact ⟨s, hs, hid, hfits, hv'⟩
    · rw [write_of_not_mem hin] at h
      exact absurd h (hstale r v hv)
  · rintro ⟨s, hs, hid, hfits, hv'⟩
    have hw : (id r, rewrap s v) ∈ carried id opens rewrap rows :=
      mem_carried.mpr ⟨s, hs, v, hv', by rw [hid]⟩
    rw [write_of_mem hset (carried_ids hids) hw]
    exact (hnew s r v v hid).mpr ⟨hfits, rfl⟩

end Carrying

/-- Keys as terms: a key of its own, or one derived. -/
inductive Term where
  | root (n : ℕ)
  | derived (k : Term) (label : String) (id : ℕ)
  deriving DecidableEq, Repr

/-- The scheme in which a wrapped value is the pair of key and value. -/
def terms : KeyScheme Term Unit (Term × Term) Term ℕ where
  wrap k _ v := (k, v)
  unwrap k b := if k = b.1 then some b.2 else none
  derive := .derived
  sealTo n _ v := some (.root n, v)
  ofKey k := k
  toKey := some
  unwrap_wrap k n v := if_pos rfl
  opensOnce h h' := by
    obtain ⟨hk, _⟩ := Option.ite_none_right_eq_some.mp h
    obtain ⟨hk', _⟩ := Option.ite_none_right_eq_some.mp h'
    exact hk.trans hk'.symm
  derive_inj h := by
    cases h
    exact ⟨rfl, rfl⟩
  toKey_ofKey k := rfl

end FuryBrowser.WrappedKeys
