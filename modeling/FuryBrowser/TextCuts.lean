import FuryBrowser.TextLines
import Mathlib.Data.List.TakeWhile

/-!
# Text and the white space around it

A text is white space, its trimmed form and white space again; what has no white space at its ends
is its own trimmed form.
-/

namespace FuryBrowser.TextTrims

open AgentDisk TextBytes TextLines

variable {text before after : Text}

/-- No white space stands at either end. -/
structure Solid (text : Text) : Prop where
  /-- The first character is none. -/
  head : ∀ c ∈ text.head?, isWhiteSpace c = false
  last : ∀ c ∈ text.getLast?, isWhiteSpace c = false

theorem dropWhile_white (h : ∀ c ∈ before, isWhiteSpace c = true)
    (hhead : ∀ c ∈ text.head?, isWhiteSpace c = false) :
    (before ++ text).dropWhile isWhiteSpace = text := by
  induction before with
  | nil =>
    cases text with
    | nil => rfl
    | cons c rest => simp [hhead c rfl]
  | cons c rest ih =>
    rw [List.cons_append, List.dropWhile_cons_of_pos (h c List.mem_cons_self)]
    exact ih fun d hd => h d (List.mem_cons_of_mem _ hd)

/-- White space around a text is what trimming removes. -/
theorem trimText_between (before after : Text) (hbefore : ∀ c ∈ before, isWhiteSpace c = true)
    (hafter : ∀ c ∈ after, isWhiteSpace c = true) (h : Solid text) :
    trimText (before ++ text ++ after) = text := by
  cases hempty : text with
  | nil =>
    have hall : ∀ c ∈ before ++ after, isWhiteSpace c = true := by
      intro c hc
      rcases List.mem_append.mp hc with hin | hin
      · exact hbefore c hin
      · exact hafter c hin
    rw [List.append_nil, trimText, List.dropWhile_eq_nil_iff.mpr hall]
    rfl
  | cons c rest =>
    rw [← hempty, trimText, List.append_assoc, dropWhile_white hbefore, List.reverse_append,
      dropWhile_white, List.reverse_reverse]
    · intro d hd
      exact hafter d (List.mem_reverse.mp hd)
    · intro d hd
      rw [List.head?_reverse] at hd
      exact h.last d hd
    · intro d hd
      rw [hempty] at hd h
      exact h.head d hd

theorem trimText_of_solid (h : Solid text) : trimText text = text := by
  simpa using trimText_between [] [] (by simp) (by simp) h

theorem trimText_spec (text : Text) : ∃ before after, text = before ++ trimText text ++ after ∧
    (∀ c ∈ before, isWhiteSpace c = true) ∧ (∀ c ∈ after, isWhiteSpace c = true) ∧
    Solid (trimText text) := by
  obtain ⟨rest, hrest⟩ : ∃ rest, rest = text.dropWhile isWhiteSpace := ⟨_, rfl⟩
  have hfront := List.takeWhile_append_dropWhile (p := isWhiteSpace) (l := text)
  have hback := List.takeWhile_append_dropWhile (p := isWhiteSpace) (l := rest.reverse)
  have htrim : trimText text = (rest.reverse.dropWhile isWhiteSpace).reverse := by
    rw [trimText, hrest]
  have hsplit : rest = trimText text ++ (rest.reverse.takeWhile isWhiteSpace).reverse := by
    rw [htrim, ← List.reverse_append, hback, List.reverse_reverse]
  have hhead : ∀ c ∈ rest.head?, isWhiteSpace c = false := by
    intro c hc
    rw [hrest] at hc
    have hnot := List.head?_dropWhile_not isWhiteSpace text
    rw [hc] at hnot
    exact hnot
  refine ⟨text.takeWhile isWhiteSpace, (rest.reverse.takeWhile isWhiteSpace).reverse, ?_, ?_, ?_,
    ⟨?_, ?_⟩⟩
  · rw [List.append_assoc, ← hsplit, hrest, hfront]
  · exact fun c hc => List.mem_takeWhile_imp hc
  · exact fun c hc => List.mem_takeWhile_imp (List.mem_reverse.mp hc)
  · intro c hc
    apply hhead c
    rw [hsplit]
    cases htext : trimText text with
    | nil =>
      rw [htext] at hc
      cases hc
    | cons d more =>
      rw [htext] at hc
      exact hc
  · intro c hc
    rw [htrim, List.getLast?_reverse] at hc
    have hnot := List.head?_dropWhile_not isWhiteSpace rest.reverse
    rw [hc] at hnot
    exact hnot

theorem trimText_solid (text : Text) : Solid (trimText text) := by
  obtain ⟨_, _, -, -, -, h⟩ := trimText_spec text
  exact h

theorem trimText_trimText (text : Text) : trimText (trimText text) = trimText text :=
  trimText_of_solid (trimText_solid text)

/-- What is changed character by character, white space staying what it is, is trimmed alike. -/
theorem trimText_map {f : Char → Char} (h : ∀ c, isWhiteSpace (f c) = isWhiteSpace c) :
    trimText (text.map f) = (trimText text).map f := by
  have hf : isWhiteSpace ∘ f = isWhiteSpace := funext h
  rw [trimText, trimText, List.dropWhile_map, hf, ← List.map_reverse, List.dropWhile_map, hf,
    List.map_reverse]

end FuryBrowser.TextTrims

/-!
## Where a text is cut

A text that is put together around a mark is cut there again: at the last mark when none comes
after it, and a word at a time at the blanks.
-/

namespace FuryBrowser.TextCuts

open AgentDisk TextBytes TextLines

section Marks

variable {at_ c : Char} {a b rest text word : Text}

theorem rsplitOnce_append (h : at_ ∉ b) : rsplitOnce at_ (a ++ at_ :: b) = some (a, b) := by
  have hback : (a ++ at_ :: b).reverse = b.reverse ++ at_ :: a.reverse := by simp
  rw [rsplitOnce, hback, splitOnce_append (by rwa [List.mem_reverse])]
  simp

theorem rsplitOnce_eq (h : rsplitOnce at_ text = some (a, b)) : text = a ++ at_ :: b := by
  obtain ⟨⟨after, before⟩, hsplit, heq⟩ := Option.map_eq_some_iff.mp h
  cases heq
  have hback := splitOnce_eq hsplit
  rw [← List.reverse_reverse text, hback]
  simp

/-- The first mark is the one that is cut at. -/
theorem splitOnce_free (h : splitOnce at_ text = some (a, b)) : at_ ∉ a := by
  induction text generalizing a with
  | nil => cases h
  | cons d more ih =>
    rw [splitOnce] at h
    split at h
    · cases h
      exact List.not_mem_nil
    · rename_i hd
      obtain ⟨⟨before, after⟩, hrest, heq⟩ := Option.map_eq_some_iff.mp h
      cases heq
      intro hin
      rcases List.mem_cons.mp hin with heq | hlater
      · exact hd heq.symm
      · exact ih hrest hlater

theorem rsplitOnce_free (h : rsplitOnce at_ text = some (a, b)) : at_ ∉ b := by
  obtain ⟨⟨after, before⟩, hsplit, heq⟩ := Option.map_eq_some_iff.mp h
  cases heq
  rw [List.mem_reverse]
  exact splitOnce_free hsplit

theorem rsplitOnce_of_notMem (h : at_ ∉ text) : rsplitOnce at_ text = none := by
  rw [rsplitOnce, splitOnce_of_notMem (by rwa [List.mem_reverse])]
  rfl

theorem splitOnce_none (h : splitOnce at_ text = none) : at_ ∉ text := by
  intro hin
  obtain ⟨a, b, rfl, hfree⟩ := List.eq_append_cons_of_mem hin
  rw [splitOnce_append hfree] at h
  cases h

theorem rsplitOnce_none (h : rsplitOnce at_ text = none) : at_ ∉ text := fun hin =>
  splitOnce_none (Option.map_eq_none_iff.mp h) (List.mem_reverse.mpr hin)

theorem stripStart_append (start rest : Text) : stripStart start (start ++ rest) = some rest := by
  rw [stripStart, if_pos (List.isPrefixOf_iff_prefix.mpr ⟨rest, rfl⟩), List.drop_left]

theorem trimStartMatches_of_notMem (h : c ∉ text) : trimStartMatches c text = text := by
  cases text with
  | nil => rfl
  | cons d text =>
    rw [trimStartMatches, List.dropWhile_cons, if_neg]
    intro hd
    exact h (of_decide_eq_true hd ▸ List.mem_cons_self)

theorem trimEndMatches_of_notMem (h : c ∉ text) : trimEndMatches c text = text := by
  have hback : trimStartMatches c text.reverse = text.reverse :=
    trimStartMatches_of_notMem fun hin => h (List.mem_reverse.mp hin)
  rw [trimStartMatches] at hback
  rw [trimEndMatches, hback, List.reverse_reverse]

/-- Only the one character is trimmed. -/
theorem mem_trimEndMatches (h : c ∈ text) (hne : c ≠ at_) : c ∈ trimEndMatches at_ text := by
  have hwhole := List.takeWhile_append_dropWhile (p := (· = at_)) (l := text.reverse)
  have hin : c ∈ text.reverse := List.mem_reverse.mpr h
  rw [← hwhole] at hin
  rcases List.mem_append.mp hin with hfront | hback
  · have hsame := List.all_eq_true.mp List.all_takeWhile c hfront
    exact absurd (of_decide_eq_true hsame) hne
  · exact List.mem_reverse.mpr hback

/-- The first word, and the words after it. -/
theorem words_cons (hword : ∀ d ∈ word, isWhiteSpace d = false) (hne : word ≠ [])
    (hblank : isWhiteSpace c = true) (rest : Text) :
    words (word ++ c :: rest) = word :: words rest := by
  have hsplit (l : Text) (hl : ∀ d ∈ l, isWhiteSpace d = false) :
      (l ++ c :: rest).splitOnP isWhiteSpace = l :: rest.splitOnP isWhiteSpace := by
    induction l with
    | nil => rw [List.nil_append, List.splitOnP_cons_eq_if_modifyHead, if_pos hblank]
    | cons d more ih =>
      have hd : isWhiteSpace d = false := hl d List.mem_cons_self
      rw [List.cons_append, List.splitOnP_cons_eq_if_modifyHead,
        if_neg (by rw [hd]; exact Bool.false_ne_true),
        ih fun e he => hl e (List.mem_cons_of_mem _ he)]
      rfl
  rw [words, hsplit word hword, List.filter_cons, if_pos (decide_eq_true hne)]
  rfl

theorem words_last (hword : ∀ d ∈ word, isWhiteSpace d = false) (hne : word ≠ []) :
    words word = [word] := by
  have hsplit (l : Text) (hl : ∀ d ∈ l, isWhiteSpace d = false) :
      l.splitOnP isWhiteSpace = [l] := by
    induction l with
    | nil => rfl
    | cons d more ih =>
      have hd : isWhiteSpace d = false := hl d List.mem_cons_self
      rw [List.splitOnP_cons_eq_if_modifyHead, if_neg (by rw [hd]; exact Bool.false_ne_true),
        ih fun e he => hl e (List.mem_cons_of_mem _ he)]
      rfl
  rw [words, hsplit word hword, List.filter_cons, if_pos (decide_eq_true hne)]
  rfl

end Marks

section Numbers

variable {digits text : Text} {n max : ℕ}

/-- Without a plus sign in front a number is its digits. -/
theorem parseUnsigned_eq (h : text.head? ≠ some '+') :
    parseUnsigned max text = (decimalValue text).filter fun n => n ≤ max := by
  unfold parseUnsigned
  dsimp only
  split
  · exact absurd rfl h
  · rfl

/-- Digits alone are read as the number they spell, if it is not too large. -/
theorem parseUnsigned_digits (h : decimalValue digits = some n) (hmax : n ≤ max) :
    parseUnsigned max digits = some n := by
  have hplus : digits.head? ≠ some '+' := by
    intro hhead
    unfold decimalValue at h
    split at h
    · rename_i hboth
      have hdigit := List.all_eq_true.mp hboth.2 '+' (List.mem_of_mem_head? hhead)
      exact absurd hdigit (by decide)
    · cases h
  rw [parseUnsigned_eq hplus]
  exact Option.filter_eq_some_iff.mpr ⟨h, decide_eq_true hmax⟩

theorem decimalValue_digits (h : decimalValue digits = some n) :
    digits ≠ [] ∧ ∀ c ∈ digits, c.isDigit = true := by
  unfold decimalValue at h
  split at h
  · rename_i hboth
    exact ⟨hboth.1, fun c hc => List.all_eq_true.mp hboth.2 c hc⟩
  · cases h

end Numbers

end FuryBrowser.TextCuts
