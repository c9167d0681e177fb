import Mathlib.Data.List.Basic

/-!
# Guarded runs of a partial step function

A system is a step function `σ → α → Option σ`: `none` means that the label
cannot happen in that state. A guard selects the steps a run is allowed to
take, so that one system can be studied under an assumption about its
schedule and, with the guard that always holds, under no assumption at all.

An invariant is proved once, for one step, and then holds in every state of
every guarded run. A concrete run is a list of labels, which computes.
-/

namespace FuryBrowser.GuardedRuns

universe u v w

variable {σ : Type u} {α : Type v}

/-- The guard that restricts nothing. -/
def anyStep : σ → α → Prop := fun _ _ => True

instance : DecidableRel (anyStep : σ → α → Prop) := fun _ _ => .isTrue trivial

/-- States reached from an initial state by steps that all meet the guard. -/
inductive Reached (init : σ → Prop) (step : σ → α → Option σ)
    (guard : σ → α → Prop) : σ → Prop
  /-- A run may start in any initial state. -/
  | start {s : σ} (hi : init s) : Reached init step guard s
  /-- One more step, allowed by the guard in the state it starts from. -/
  | next {s t : σ} {a : α} (hr : Reached init step guard s) (hg : guard s a)
      (hs : step s a = some t) : Reached init step guard t

/-- A property that every guarded step preserves. -/
def Preserved (step : σ → α → Option σ) (guard : σ → α → Prop) (inv : σ → Prop) : Prop :=
  ∀ ⦃s a t⦄, inv s → guard s a → step s a = some t → inv t

/-- The state after a list of labels; `none` when one of them could not happen. -/
def run (step : σ → α → Option σ) (s : σ) : List α → Option σ
  | [] => some s
  | a :: labels => (step s a).bind fun t => run step t labels

/-- Every label of a run meets the guard in the state it happens in. -/
def Allowed (step : σ → α → Option σ) (guard : σ → α → Prop) (s : σ) : List α → Prop
  | [] => True
  | a :: labels => guard s a ∧ ∀ t, step s a = some t → Allowed step guard t labels

instance decidableAllowed (step : σ → α → Option σ) (guard : σ → α → Prop)
    [∀ s a, Decidable (guard s a)] (s : σ) (labels : List α) :
    Decidable (Allowed step guard s labels) :=
  match labels with
  | [] => .isTrue trivial
  | a :: rest =>
    match hs : step s a with
    | none => decidable_of_iff (guard s a) (by simp [Allowed, hs])
    | some t =>
      have := decidableAllowed step guard t rest
      decidable_of_iff (guard s a ∧ Allowed step guard t rest) (by simp [Allowed, hs])

variable {init : σ → Prop} {step : σ → α → Option σ} {guard : σ → α → Prop} {inv : σ → Prop}

/-- An inductive invariant holds in every state of every guarded run. -/
theorem Reached.invariant {s : σ} (inv : σ → Prop) (hr : Reached init step guard s)
    (hinit : ∀ s, init s → inv s) (hstep : Preserved step guard inv) : inv s := by
  induction hr with
  | start hi => exact hinit _ hi
  | next _ hg hs ih => exact hstep ih hg hs

/-- A computed run whose labels meet the guard reaches its last state. -/
theorem Reached.run {s t : σ} (labels : List α) (hr : Reached init step guard s)
    (ha : Allowed step guard s labels) (h : run step s labels = some t) :
    Reached init step guard t := by
  induction labels generalizing s with
  | nil =>
    cases h
    exact hr
  | cons a rest ih =>
    obtain ⟨hg, hrest⟩ := ha
    obtain ⟨m, hm, hrun⟩ := Option.bind_eq_some_iff.mp h
    exact ih (.next hr hg hm) (hrest m hm) hrun

/-- With no restriction on the schedule, every computed run counts. -/
theorem Reached.run_any {s t : σ} (labels : List α) (hr : Reached init step anyStep s)
    (h : GuardedRuns.run step s labels = some t) : Reached init step anyStep t := by
  refine hr.run labels ?_ h
  clear h hr
  induction labels generalizing s with
  | nil => trivial
  | cons a rest ih => exact ⟨trivial, fun _ _ => ih⟩

/-- A run goes on where its first part ends. -/
theorem run_append (s : σ) (labels more : List α) :
    run step s (labels ++ more) = (run step s labels).bind fun t => run step t more := by
  induction labels generalizing s with
  | nil => rfl
  | cons a rest ih =>
    rw [List.cons_append, GuardedRuns.run, GuardedRuns.run, Option.bind_assoc]
    exact congrArg _ (funext ih)

/-- Two guards that agree wherever an invariant holds allow the same runs. -/
theorem allowed_congr {guard' : σ → α → Prop} (hinv : Preserved step anyStep inv)
    (h : ∀ s a, inv s → (guard s a ↔ guard' s a)) {s : σ} (hs : inv s) (labels : List α) :
    Allowed step guard s labels ↔ Allowed step guard' s labels := by
  induction labels generalizing s with
  | nil => exact Iff.rfl
  | cons a rest ih =>
    refine and_congr (h s a hs) (forall_congr' fun t => ?_)
    exact forall_congr' fun ht => ih (hinv hs trivial ht)

/-- The last label of an allowed run meets the guard where it happens. -/
theorem Allowed.last {s t : σ} {a : α} {labels : List α}
    (h : Allowed step guard s (labels ++ [a])) (hrun : GuardedRuns.run step s labels = some t) :
    guard t a := by
  induction labels generalizing s with
  | nil =>
    cases hrun
    exact h.1
  | cons b rest ih =>
    obtain ⟨m, hm, hrest⟩ := Option.bind_eq_some_iff.mp hrun
    exact ih (h.2 m hm) hrest

end FuryBrowser.GuardedRuns
