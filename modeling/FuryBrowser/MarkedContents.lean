import Mathlib.Data.List.Basic
import Mathlib.Data.List.Induction
import Mathlib.Logic.Nontrivial.Basic

/-!
# Contents built by operations, and a mark on some of them

Operations change contents until a restart makes them blank again. Different
machines may carry out an operation differently; on some operations they all
agree. A mark is raised by an operation and lowered by a restart. Unmarked
contents are the same on all machines exactly when the mark is raised, or every
operation since the last restart is one they agree on.
-/

namespace FuryBrowser.MarkedContents

universe u v

variable {Op : Type u} {Content : Type v}

/-- What happens to the contents. -/
inductive Event (Op : Type u)
  | restart
  /-- An operation changes them. -/
  | apply (op : Op)

/-- A value that a restart resets and every operation updates. -/
def replay (blank : Content) (f : Content → Op → Content) (c : Content)
    (history : List (Event Op)) : Content :=
  history.foldl (fun c e => match e with
    | .restart => blank
    | .apply op => f c op) c

/-- The contents that a machine makes. -/
def contents (blank : Content) (machine : Op → Content → Content)
    (history : List (Event Op)) : Content :=
  replay blank (fun c op => machine op c) blank history

/-- The mark that some operations raise. -/
def marked (mark : Op → Bool) (history : List (Event Op)) : Bool :=
  replay false (fun b op => b || mark op) false history

/-- The operations since the last restart. -/
def since (history : List (Event Op)) : List Op :=
  replay [] (fun ops op => ops ++ [op]) [] history

section Replays

variable (blank : Content) (f : Content → Op → Content)

theorem replay_append (c : Content) (h k : List (Event Op)) :
    replay blank f c (h ++ k) = replay blank f (replay blank f c h) k :=
  List.foldl_append

@[simp] theorem replay_restart (c : Content) (h : List (Event Op)) :
    replay blank f c (.restart :: h) = replay blank f blank h := rfl

@[simp] theorem replay_apply (c : Content) (op : Op) (h : List (Event Op)) :
    replay blank f c (.apply op :: h) = replay blank f (f c op) h := rfl

@[simp] theorem replay_nil (c : Content) : replay blank f c [] = c := rfl

theorem since_append_restart (h : List (Event Op)) : since (h ++ [.restart]) = [] := by
  rw [since, replay_append]
  rfl

theorem since_append_apply (h : List (Event Op)) (op : Op) :
    since (h ++ [.apply op]) = since h ++ [op] := by
  rw [since, replay_append]
  rfl

/-- Only what happened since the last restart counts. -/
theorem replay_eq_since (h : List (Event Op)) :
    replay blank f blank h = (since h).foldl f blank := by
  induction h using List.reverseRecOn with
  | nil => rfl
  | append_singleton h e ih =>
    rw [replay_append, ih]
    cases e with
    | restart => rw [since_append_restart]; rfl
    | apply op => rw [since_append_apply, List.foldl_append]; rfl

end Replays

theorem marked_iff (mark : Op → Bool) (h : List (Event Op)) :
    marked mark h = true ↔ ∃ op ∈ since h, mark op = true := by
  have hraised : ∀ (ops : List Op) (b : Bool),
      ops.foldl (fun b op => b || mark op) b = (b || ops.any mark) := by
    intro ops
    induction ops with
    | nil => intro b; simp
    | cons op ops ih => intro b; simp [ih, Bool.or_assoc]
  rw [marked, replay_eq_since, hraised, Bool.false_or, List.any_eq_true]

/-- Machines that agree on every operation since the last restart agree on the contents. -/
theorem contents_eq_of_agree (blank : Content) {m₁ m₂ : Op → Content → Content}
    {h : List (Event Op)} (hagree : ∀ op ∈ since h, m₁ op = m₂ op) :
    contents blank m₁ h = contents blank m₂ h := by
  rw [contents, contents, replay_eq_since, replay_eq_since]
  refine List.foldl_ext _ _ blank fun c op hop => ?_
  rw [hagree op hop]

section Varying

variable (Same : Op → Prop) [DecidablePred Same]

/-- A machine that changes nothing by the operations in `Same`, and writes `c` by any other. -/
def writing (c : Content) (op : Op) (d : Content) : Content := if Same op then d else c

theorem foldl_writing_written (c : Content) (ops : List Op) :
    ops.foldl (fun d op => writing Same c op d) c = c := by
  induction ops with
  | nil => rfl
  | cons op ops ih =>
    have hkept : writing Same c op c = c := by
      unfold writing
      split <;> rfl
    rw [List.foldl_cons, hkept, ih]

theorem foldl_writing {c : Content} {ops : List Op} (d : Content) {op : Op} (hop : op ∈ ops)
    (hsame : ¬ Same op) : ops.foldl (fun d op => writing Same c op d) d = c := by
  induction ops generalizing d with
  | nil => cases hop
  | cons first rest ih =>
    rw [List.foldl_cons]
    rcases List.mem_cons.mp hop with rfl | hrest
    · have hwritten : writing Same c op d = c := if_neg hsame
      rw [hwritten, foldl_writing_written]
    · exact ih _ hrest

end Varying

/-- Unmarked contents are the same on all machines that agree on `Same`, exactly when an
operation since the last restart raises the mark or all of them are in `Same`. -/
theorem unmarked_agree_iff [Nontrivial Content] (Same : Op → Prop) (mark : Op → Bool)
    (blank : Content) (h : List (Event Op)) :
    (∀ m₁ m₂ : Op → Content → Content, (∀ op, Same op → m₁ op = m₂ op) →
      marked mark h = false → contents blank m₁ h = contents blank m₂ h) ↔
    (∃ op ∈ since h, mark op = true) ∨ ∀ op ∈ since h, Same op := by
  classical
  constructor
  · intro hall
    by_contra hcon
    obtain ⟨hmark, hdiffer⟩ := not_or.mp hcon
    obtain ⟨op, hop⟩ := not_forall.mp hdiffer
    obtain ⟨hmem, hsame⟩ := Classical.not_imp.mp hop
    obtain ⟨other, hother⟩ := exists_ne blank
    have hquiet : marked mark h = false := by
      rwa [← Bool.not_eq_true, marked_iff]
    -- one machine leaves the contents as they are, the other writes on them
    have heq := hall (writing Same blank) (writing Same other)
      (fun op hs => by
        funext d
        rw [writing, writing, if_pos hs, if_pos hs]) hquiet
    rw [contents, contents, replay_eq_since, replay_eq_since,
      foldl_writing Same blank hmem hsame, foldl_writing Same blank hmem hsame] at heq
    exact hother heq.symm
  · rintro (hmark | hsame) m₁ m₂ hagree hquiet
    · rw [(marked_iff mark h).mpr hmark] at hquiet
      cases hquiet
    · exact contents_eq_of_agree blank fun op hop => hagree op (hsame op hop)

end FuryBrowser.MarkedContents
