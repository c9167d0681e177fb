import FuryBrowser.TextCuts
import Mathlib.Algebra.GroupWithZero.Nat

/-!
# Fields of a text

A text cut at a piece of text, at the first of several marks, at all of them, or into so many
fields at most. What is cut off is shorter than what it was cut from.
-/

namespace FuryBrowser.TextFields

open AgentDisk TextBytes TextLines TextCuts

section Cutting

/-- `str::split_once` at a text. -/
def splitOnceText (sep : Text) : Text → Option (Text × Text)
  | [] => none
  | c :: text =>
    match stripStart sep (c :: text) with
    | some rest => some ([], rest)
    | none => (splitOnceText sep text).map fun (before, after) => (c :: before, after)

/-- `str::split_once` at one of some characters. -/
def splitOnceAny (marks : List Char) : Text → Option (Text × Text)
  | [] => none
  | c :: text =>
    if c ∈ marks then some ([], text)
    else (splitOnceAny marks text).map fun (before, after) => (c :: before, after)

/-- `str::split` at each of some characters. -/
def splitAny (marks : List Char) (text : Text) : List Text := text.splitOnP (· ∈ marks)

/-- `str::splitn`. -/
def splitUpTo (at_ : Char) : ℕ → Text → List Text
  | 0, _ => []
  | 1, text => [text]
  | n + 2, text =>
    match splitOnce at_ text with
    | some (field, rest) => field :: splitUpTo at_ (n + 1) rest
    | none => [text]

/-- `slice::join`. -/
def joinWith (at_ : Char) : List Text → Text
  | [] => []
  | [field] => field
  | field :: fields => field ++ at_ :: joinWith at_ fields

end Cutting

section Lengths

variable {at_ : Char} {sep text a b : Text} {marks : List Char}

theorem splitOnceAny_eq (h : splitOnceAny marks text = some (a, b)) :
    ∃ c ∈ marks, text = a ++ c :: b := by
  induction text generalizing a with
  | nil => cases h
  | cons d text ih =>
    rw [splitOnceAny] at h
    split at h
    · rename_i hd
      cases h
      exact ⟨d, hd, rfl⟩
    · obtain ⟨⟨before, after⟩, hsplit, h⟩ := Option.map_eq_some_iff.mp h
      cases h
      obtain ⟨c, hc, rfl⟩ := ih hsplit
      exact ⟨c, hc, rfl⟩

/-- Where no mark stands before, the cut is there. -/
theorem splitOnceAny_append {c : Char} (h : ∀ d ∈ a, d ∉ marks) (hc : c ∈ marks) :
    splitOnceAny marks (a ++ c :: b) = some (a, b) := by
  induction a with
  | nil => exact if_pos hc
  | cons d a ih =>
    rw [List.cons_append, splitOnceAny, if_neg (h d List.mem_cons_self),
      ih fun e he => h e (List.mem_cons_of_mem _ he)]
    rfl

/-- Where the text it is cut at does not begin before, the cut is there. -/
theorem splitOnceText_append {c : Char} (h : c ∉ a) (sep b : Text) :
    splitOnceText (c :: sep) (a ++ (c :: sep ++ b)) = some (a, b) := by
  induction a with
  | nil =>
    have hstart : stripStart (c :: sep) (c :: (sep ++ b)) = some b :=
      stripStart_append (c :: sep) b
    rw [List.nil_append, List.cons_append, splitOnceText, hstart]
  | cons d a ih =>
    have hd : stripStart (c :: sep) (d :: (a ++ (c :: sep ++ b))) = none := by
      rw [stripStart, if_neg]
      intro hstart
      obtain ⟨rest, hrest⟩ := List.isPrefixOf_iff_prefix.mp hstart
      exact h ((List.cons.inj hrest).1 ▸ List.mem_cons_self)
    rw [List.cons_append, splitOnceText, hd, ih fun hin => h (List.mem_cons_of_mem _ hin)]
    rfl

end Lengths

section Weights

variable {mark at_ : Char} {text field : Text} {marks : List Char} {fields : List Text}

/-- How long a text is, where a mark counts twice. -/
def weight (mark : Char) (text : Text) : ℕ := text.length + text.count mark

/-- What fields weigh, with what ends each of them. -/
def fieldsWeight (mark : Char) (fields : List Text) : ℕ :=
  (fields.map fun field => weight mark field + 1).sum

theorem weight_append (a b : Text) : weight mark (a ++ b) = weight mark a + weight mark b := by
  simp only [weight, List.length_append, List.count_append]
  omega

theorem weight_cons (c : Char) (text : Text) :
    weight mark (c :: text) = weight mark text + if c = mark then 2 else 1 := by
  simp only [weight, List.length_cons, List.count_cons, beq_iff_eq]
  split <;> omega

theorem weight_sublist (h : List.Sublist field text) : weight mark field ≤ weight mark text :=
  Nat.add_le_add h.length_le (h.count_le mark)

theorem weight_trimText (mark : Char) (text : Text) :
    weight mark (trimText text) ≤ weight mark text :=
  weight_sublist ((((List.dropWhile_suffix _).sublist.reverse).trans
    (by rw [List.reverse_reverse])).trans (List.dropWhile_suffix _).sublist)

/-- Joined fields weigh no more than with what ended them. -/
theorem weight_joinWith (h : at_ ≠ mark) (fields : List Text) (hne : fields ≠ []) :
    weight mark (joinWith at_ fields) + 1 ≤ fieldsWeight mark fields := by
  induction fields using joinWith.induct with
  | case1 => exact absurd rfl hne
  | case2 field => simp [joinWith, fieldsWeight]
  | case3 field fields hmore ih =>
    have hrest := ih fun hnil => hmore hnil
    have hjoin : joinWith at_ (field :: fields) = field ++ at_ :: joinWith at_ fields := by
      cases fields with
      | nil => exact absurd rfl hmore
      | cons next more => rfl
    have hsum : fieldsWeight mark (field :: fields) =
        weight mark field + 1 + fieldsWeight mark fields := by
      simp [fieldsWeight]
    rw [hjoin, hsum, weight_append, weight_cons, if_neg h]
    omega

theorem fieldsWeight_trimText (mark : Char) (fields : List Text) :
    fieldsWeight mark (fields.map trimText) ≤ fieldsWeight mark fields := by
  induction fields with
  | nil => exact Nat.le_refl _
  | cons field fields ih =>
    have hfield := weight_trimText mark field
    simp only [fieldsWeight, List.map_cons, List.sum_cons] at ih ⊢
    omega

theorem fieldsWeight_filter (mark : Char) (fields : List Text) (p : Text → Bool) :
    fieldsWeight mark (fields.filter p) ≤ fieldsWeight mark fields := by
  induction fields with
  | nil => exact Nat.le_refl _
  | cons field fields ih =>
    rw [List.filter_cons]
    split
    · simp only [fieldsWeight, List.map_cons, List.sum_cons] at ih ⊢
      omega
    · simp only [fieldsWeight, List.map_cons, List.sum_cons] at ih ⊢
      omega

theorem fieldsWeight_modifyHead (mark c : Char) (hne : fields ≠ []) :
    fieldsWeight mark (fields.modifyHead (c :: ·)) =
      fieldsWeight mark fields + if c = mark then 2 else 1 := by
  cases fields with
  | nil => exact absurd rfl hne
  | cons field fields =>
    simp only [fieldsWeight, List.modifyHead_cons, List.map_cons, List.sum_cons, weight_cons]
    omega

theorem fieldsWeight_splitAny (h : mark ∉ marks) :
    fieldsWeight mark (splitAny marks text) = weight mark text + 1 := by
  induction text with
  | nil => rfl
  | cons c text ih =>
    rw [splitAny] at ih ⊢
    rw [List.splitOnP_cons_eq_if_modifyHead, weight_cons]
    split
    · rename_i hc
      have hne : c ≠ mark := fun heq => h (heq ▸ of_decide_eq_true hc)
      rw [if_neg hne]
      simp only [fieldsWeight, List.map_cons, List.sum_cons] at ih ⊢
      rw [ih]
      simp only [weight, List.length_nil, List.count_nil]
      omega
    · rw [fieldsWeight_modifyHead mark c (List.splitOnP_ne_nil _ _), ih]
      omega

/-- Cut at the mark, a text is as long as it was. -/
theorem fieldsWeight_splitAt :
    fieldsWeight mark (splitAt mark text) = text.length + 1 := by
  induction text with
  | nil => rfl
  | cons c text ih =>
    rw [splitAt]
    split
    · simp only [fieldsWeight, List.map_cons, List.sum_cons] at ih ⊢
      rw [ih]
      simp only [weight, List.length_nil, List.count_nil, List.length_cons]
      omega
    · rename_i hc
      have hne : splitAt mark text ≠ [] := splitAt_ne_nil text
      have hhead := fieldsWeight_modifyHead mark c hne
      rw [if_neg hc, ih] at hhead
      cases hparts : splitAt mark text with
      | nil => exact absurd hparts hne
      | cons part parts =>
        rw [hparts] at hhead
        exact hhead

end Weights

end FuryBrowser.TextFields
