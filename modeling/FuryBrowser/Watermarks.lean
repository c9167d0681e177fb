import Mathlib.Data.Option.Basic
import Mathlib.Order.Lattice

/-!
# The highest of what was accepted

A history of what was accepted, for whom, and at which rank. What was accepted last need not be
what was accepted at the highest rank; adding to the history moves the highest only if nothing
above it was accepted for the same owner.
-/

namespace FuryBrowser.Watermarks

universe u v w

/-- Something that was accepted. -/
structure Accepted (ο : Type u) (γ : Type v) (κ : Type w) where
  owner : ο
  rank : γ
  /-- What it was, if there was anything to it but the rank. -/
  item : Option κ
  deriving DecidableEq, Repr

variable {ο : Type u} {γ : Type v} {κ : Type w} [LinearOrder γ]
variable {l : List (Accepted ο γ κ)} {a : Accepted ο γ κ} {o : ο} {k : κ}

/-- It was accepted for its owner, at the highest rank that ever was. -/
def Top (l : List (Accepted ο γ κ)) (o : ο) (k : κ) : Prop :=
  ∃ a ∈ l, a.owner = o ∧ a.item = some k ∧ ∀ b ∈ l, b.owner = o → b.rank ≤ a.rank

/-- Something was accepted for the owner at a higher rank. -/
def Above (l : List (Accepted ο γ κ)) (o : ο) (rank : γ) : Prop :=
  ∃ a ∈ l, a.owner = o ∧ rank < a.rank

/-- Or at this one. -/
def AtLeast (l : List (Accepted ο γ κ)) (o : ο) (rank : γ) : Prop :=
  ∃ a ∈ l, a.owner = o ∧ rank ≤ a.rank

instance [DecidableEq ο] [DecidableEq κ] : Decidable (Top l o k) :=
  inferInstanceAs (Decidable (∃ a ∈ l, a.owner = o ∧ a.item = some k ∧
    ∀ b ∈ l, b.owner = o → b.rank ≤ a.rank))

instance [DecidableEq ο] {rank : γ} : Decidable (Above l o rank) :=
  inferInstanceAs (Decidable (∃ a ∈ l, a.owner = o ∧ rank < a.rank))

instance [DecidableEq ο] {rank : γ} : Decidable (AtLeast l o rank) :=
  inferInstanceAs (Decidable (∃ a ∈ l, a.owner = o ∧ rank ≤ a.rank))

/-- What is the highest stays so when it is accepted again. -/
theorem Top.cons (h : Top l o k) (hitem : a.owner = o → a.item = some k) : Top (a :: l) o k := by
  obtain ⟨b, hb, howner, hb', hhighest⟩ := h
  by_cases ho : a.owner = o
  · rcases le_total a.rank b.rank with hle | hle
    · refine ⟨b, List.mem_cons_of_mem _ hb, howner, hb', fun c hc hco => ?_⟩
      rcases List.mem_cons.mp hc with rfl | hin
      · exact hle
      · exact hhighest c hin hco
    · refine ⟨a, List.mem_cons_self, ho, hitem ho, fun c hc hco => ?_⟩
      rcases List.mem_cons.mp hc with rfl | hin
      · exact le_rfl
      · exact (hhighest c hin hco).trans hle
  · refine ⟨b, List.mem_cons_of_mem _ hb, howner, hb', fun c hc hco => ?_⟩
    rcases List.mem_cons.mp hc with rfl | hin
    · exact absurd hco ho
    · exact hhighest c hin hco

/-- What is accepted becomes the highest unless something above it was accepted. -/
theorem top_cons_iff (ho : a.owner = o) (hitem : a.item = some k) :
    Top (a :: l) o k ↔ ¬ Above l o a.rank ∨ Top l o k := by
  constructor
  · rintro ⟨b, hb, howner, hb', hhighest⟩
    rcases List.mem_cons.mp hb with rfl | hin
    · refine .inl fun ⟨c, hc, hco, hlt⟩ => ?_
      exact absurd (hhighest c (List.mem_cons_of_mem _ hc) hco) (not_le.mpr hlt)
    · exact .inr ⟨b, hin, howner, hb', fun c hc => hhighest c (List.mem_cons_of_mem _ hc)⟩
  · rintro (hnone | htop)
    · refine ⟨a, List.mem_cons_self, ho, hitem, fun c hc hco => ?_⟩
      rcases List.mem_cons.mp hc with rfl | hin
      · exact le_rfl
      · exact not_lt.mp fun hlt => hnone ⟨c, hin, hco, hlt⟩
    · exact htop.cons fun _ => hitem

/-- Where a rank is accepted without it, it has to have been accepted at that rank or above. -/
theorem top_cons_without (ho : a.owner = o) (hitem : a.item ≠ some k) :
    Top (a :: l) o k ↔ Top l o k ∧ AtLeast l o a.rank := by
  constructor
  · rintro ⟨b, hb, howner, hb', hhighest⟩
    rcases List.mem_cons.mp hb with rfl | hin
    · exact absurd hb' hitem
    · exact ⟨⟨b, hin, howner, hb', fun c hc => hhighest c (List.mem_cons_of_mem _ hc)⟩,
        b, hin, howner, hhighest a List.mem_cons_self ho⟩
  · rintro ⟨⟨b, hin, howner, hb', hhighest⟩, c, hc, hco, hle⟩
    refine ⟨b, List.mem_cons_of_mem _ hin, howner, hb', fun d hd hdo => ?_⟩
    rcases List.mem_cons.mp hd with rfl | hd
    · exact hle.trans (hhighest c hc hco)
    · exact hhighest d hd hdo

end FuryBrowser.Watermarks
