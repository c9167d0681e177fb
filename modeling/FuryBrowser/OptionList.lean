import Mathlib.Data.List.Basic

/-!
# Lists of options

A string of options is read from the front. A byte 0 ends it, a byte 1 is padding, and every other
byte is the kind of an option; then comes a byte with the length of it all, and what it carries. An
option that is shorter than its own head, or longer than the string, ends it as well.
-/

namespace FuryBrowser.OptionList

section Reading

/-- The options of a string, after some bytes that belong to an option before. -/
def items : ℕ → List UInt8 → List (UInt8 × List UInt8)
  | _, [] => []
  | skip + 1, _ :: rest => items skip rest
  | 0, kind :: rest =>
    if kind = 0 then []
    else if kind = 1 then items 0 rest
    else
      let len := (rest.headD 0).toNat
      if len < 2 ∨ rest.length + 1 < len then []
      else (kind, (rest.drop 1).take (len - 2)) :: items (len - 1) rest

/-- The options of a string. -/
def entries (l : List UInt8) : List (UInt8 × List UInt8) := items 0 l

/-- The first option that meets `p` carries something else; `none` when there is no such option. -/
def rewriteAt (p : UInt8 → List UInt8 → Bool) (f : List UInt8 → List UInt8) :
    ℕ → List UInt8 → Option (List UInt8)
  | _, [] => none
  | skip + 1, b :: rest => (rewriteAt p f skip rest).map (b :: ·)
  | 0, kind :: rest =>
    if kind = 0 then none
    else if kind = 1 then (rewriteAt p f 0 rest).map (kind :: ·)
    else
      let len := (rest.headD 0).toNat
      if len < 2 ∨ rest.length + 1 < len then none
      else if p kind ((rest.drop 1).take (len - 2)) then
        some (kind :: (rest.take 1 ++ f ((rest.drop 1).take (len - 2)) ++ rest.drop (len - 1)))
      else (rewriteAt p f (len - 1) rest).map (kind :: ·)

/-- The same from the front. -/
def rewrite (p : UInt8 → List UInt8 → Bool) (f : List UInt8 → List UInt8) (l : List UInt8) :
    Option (List UInt8) := rewriteAt p f 0 l

/-- There is no option in front of the string. -/
def Stops : List UInt8 → Bool
  | [] => true
  | kind :: rest =>
    kind = 0 || kind ≠ 1 && ((rest.headD 0).toNat < 2 || rest.length + 1 < (rest.headD 0).toNat)

/-- How a string is read. -/
inductive Region : List UInt8 → Prop
  | stop {l : List UInt8} (h : Stops l = true) : Region l
  | pad {rest : List UInt8} (h : Region rest) : Region (1 :: rest)
  | option {kind len : UInt8} {body rest : List UInt8} (hend : kind ≠ 0) (hpad : kind ≠ 1)
      (hlen : len.toNat = body.length + 2) (h : Region rest) :
      Region (kind :: len :: (body ++ rest))

theorem region (l : List UInt8) : Region l := by
  induction hn : l.length using Nat.strongRecOn generalizing l with
  | ind n ih =>
    cases hstop : Stops l with
    | true => exact .stop hstop
    | false =>
      match l with
      | [] => cases hstop
      | kind :: rest =>
        simp only [Stops, Bool.or_eq_false_iff, decide_eq_false_iff_not] at hstop
        obtain ⟨hend, hrest⟩ := hstop
        rw [List.length_cons] at hn
        by_cases hpad : kind = 1
        · subst hpad
          exact .pad (ih rest.length (by omega) rest rfl)
        · rw [decide_eq_true (p := kind ≠ 1) hpad, Bool.true_and, Bool.or_eq_false_iff,
            decide_eq_false_iff_not, decide_eq_false_iff_not] at hrest
          match rest with
          | [] => exact absurd (by decide) hrest.1
          | len :: tail =>
            simp only [List.headD_cons, List.length_cons] at hrest hn
            have hlen : len.toNat = (tail.take (len.toNat - 2)).length + 2 := by
              rw [List.length_take]
              omega
            have hopt := Region.option hend hpad hlen
              (ih (tail.drop (len.toNat - 2)).length (by rw [List.length_drop]; omega) _ rfl)
            rwa [List.take_append_drop] at hopt

variable {p : UInt8 → List UInt8 → Bool} {f : List UInt8 → List UInt8} {l l' rest body : List UInt8}
  {kind len : UInt8}

theorem items_skip (n : ℕ) (l : List UInt8) : items n l = entries (l.drop n) := by
  induction l generalizing n with
  | nil => cases n <;> rfl
  | cons b rest ih =>
    cases n with
    | zero => rfl
    | succ n => exact ih n

theorem rewriteAt_skip (n : ℕ) (l : List UInt8) :
    rewriteAt p f n l = (rewrite p f (l.drop n)).map (l.take n ++ ·) := by
  induction l generalizing n with
  | nil => cases n <;> rfl
  | cons b rest ih =>
    cases n with
    | zero => simp only [rewrite, List.drop_zero, List.take_zero, List.nil_append, Option.map_id']
    | succ n =>
      simp only [rewriteAt, ih n, Option.map_map, List.drop_succ_cons, List.take_succ_cons]
      rfl

theorem entries_stop (h : Stops l = true) : entries l = [] := by
  match l with
  | [] => rfl
  | kind :: rest =>
    simp only [Stops, Bool.or_eq_true, Bool.and_eq_true, decide_eq_true_eq] at h
    rw [entries, items]
    rcases h with hend | ⟨hpad, hlen⟩
    · rw [if_pos hend]
    · split
      · rfl
      · exact if_pos hlen

theorem rewrite_stop (h : Stops l = true) : rewrite p f l = none := by
  match l with
  | [] => rfl
  | kind :: rest =>
    simp only [Stops, Bool.or_eq_true, Bool.and_eq_true, decide_eq_true_eq] at h
    rw [rewrite, rewriteAt]
    rcases h with hend | ⟨hpad, hlen⟩
    · rw [if_pos hend]
    · split
      · rfl
      · exact if_pos hlen

@[simp] theorem entries_pad : entries (1 :: rest) = entries rest := rfl

@[simp] theorem rewrite_pad : rewrite p f (1 :: rest) = (rewrite p f rest).map (1 :: ·) := rfl

/-- What is behind an option that fits. -/
theorem drop_option (hlen : len.toNat = body.length + 2) :
    (len :: (body ++ rest)).drop (len.toNat - 1) = rest := by
  rw [show len.toNat - 1 = body.length + 1 by omega, List.drop_succ_cons, List.drop_left']
  rfl

theorem take_option (hlen : len.toNat = body.length + 2) :
    (body ++ rest).take (len.toNat - 2) = body := by
  rw [show len.toNat - 2 = body.length by omega, List.take_left']
  rfl

theorem entries_option (hend : kind ≠ 0) (hpad : kind ≠ 1) (hlen : len.toNat = body.length + 2) :
    entries (kind :: len :: (body ++ rest)) = (kind, body) :: entries rest := by
  rw [entries, items, if_neg hend, if_neg hpad]
  simp only [List.headD_cons, List.drop_one, List.tail_cons, List.length_cons, List.length_append]
  rw [if_neg (by omega), take_option hlen, items_skip, drop_option hlen]

theorem rewrite_option (hend : kind ≠ 0) (hpad : kind ≠ 1) (hlen : len.toNat = body.length + 2) :
    rewrite p f (kind :: len :: (body ++ rest)) =
      if p kind body then some (kind :: len :: (f body ++ rest))
      else (rewrite p f rest).map fun rest' => kind :: len :: (body ++ rest') := by
  rw [rewrite, rewriteAt, if_neg hend, if_neg hpad]
  simp only [List.headD_cons, List.drop_one, List.tail_cons, List.length_cons, List.length_append]
  rw [if_neg (by omega), take_option hlen, rewriteAt_skip, drop_option hlen, Option.map_map]
  have htake : (len :: (body ++ rest)).take (len.toNat - 1) = len :: body := by
    rw [show len.toNat - 1 = body.length + 1 by omega, List.take_succ_cons, List.take_left']
    rfl
  rw [htake]
  rfl

end Reading

section Rewriting

variable {p : UInt8 → List UInt8 → Bool} {f : List UInt8 → List UInt8} {l l' : List UInt8}

/-- Nothing is rewritten exactly if no option meets the condition. -/
theorem rewrite_eq_none_iff : rewrite p f l = none ↔ ∀ x ∈ entries l, p x.1 x.2 = false := by
  induction region l with
  | stop h =>
    simp only [rewrite_stop h, entries_stop h, List.not_mem_nil, false_imp_iff, implies_true]
  | pad h ih => rw [rewrite_pad, Option.map_eq_none_iff, entries_pad, ih]
  | option hend hpad hlen h ih =>
    rw [rewrite_option hend hpad hlen, entries_option hend hpad hlen, List.forall_mem_cons]
    split
    · rename_i hp
      simp only [reduceCtorEq, hp, Bool.true_eq_false, false_and]
    · rename_i hp
      rw [Option.map_eq_none_iff, ih, Bool.eq_false_iff]
      exact ⟨fun hrest => ⟨hp, hrest⟩, fun hall => hall.2⟩

/-- One option of the string carries something else. -/
structure Rewritten (p : UInt8 → List UInt8 → Bool) (f : List UInt8 → List UInt8)
    (before after : List UInt8) : Prop where
  /-- The string is as long as it was. -/
  length : after.length = before.length
  /-- It was the first that meets the condition. -/
  first : ∃ (pre : List (UInt8 × List UInt8)) (kind : UInt8) (body : List UInt8)
    (post : List (UInt8 × List UInt8)), (∀ x ∈ pre, p x.1 x.2 = false) ∧ p kind body = true ∧
    entries before = pre ++ (kind, body) :: post ∧ entries after = pre ++ (kind, f body) :: post

theorem rewrite_some (hf : ∀ kind body, p kind body = true → (f body).length = body.length)
    (h : rewrite p f l = some l') : Rewritten p f l l' := by
  induction region l generalizing l' with
  | stop hstop => cases (rewrite_stop hstop).symm.trans h
  | pad hrest ih =>
    rw [rewrite_pad] at h
    obtain ⟨rest', hrest', rfl⟩ := Option.map_eq_some_iff.mp h
    have hin := ih hrest'
    exact ⟨congrArg (· + 1) hin.length, hin.first⟩
  | @option kind len body rest hend hpad hlen hrest ih =>
    rw [rewrite_option hend hpad hlen] at h
    split at h
    · rename_i hp
      cases h
      have hsame := hf kind body hp
      refine ⟨?_, [], kind, body, entries rest, nofun, hp, ?_, ?_⟩
      · simp only [List.length_cons, List.length_append, hsame]
      · rw [entries_option hend hpad hlen, List.nil_append]
      · rw [entries_option hend hpad (by omega), List.nil_append]
    · rename_i hp
      obtain ⟨rest', hrest', rfl⟩ := Option.map_eq_some_iff.mp h
      obtain ⟨hsame, pre, k, b, post, hpre, hk, hwas, hnow⟩ := ih hrest'
      refine ⟨?_, (kind, body) :: pre, k, b, post, ?_, hk, ?_, ?_⟩
      · simp only [List.length_cons, List.length_append, hsame]
      · exact List.forall_mem_cons.mpr ⟨Bool.eq_false_iff.mpr hp, hpre⟩
      · rw [entries_option hend hpad hlen, hwas, List.cons_append]
      · rw [entries_option hend hpad hlen, hnow, List.cons_append]

/-- Where the option that is found carries what it did, nothing changes. -/
theorem rewrite_same (h : rewrite p f l = some l') (hf : ∀ kind body,
    (entries l).find? (fun x => p x.1 x.2) = some (kind, body) → f body = body) : l' = l := by
  induction region l generalizing l' with
  | stop hstop => cases (rewrite_stop hstop).symm.trans h
  | pad hrest ih =>
    rw [rewrite_pad] at h
    obtain ⟨rest', hrest', rfl⟩ := Option.map_eq_some_iff.mp h
    rw [ih hrest' hf]
  | @option kind len body rest hend hpad hlen hrest ih =>
    rw [rewrite_option hend hpad hlen] at h
    rw [entries_option hend hpad hlen] at hf
    split at h
    · rename_i hp
      cases h
      rw [hf kind body (List.find?_cons_of_pos hp)]
    · rename_i hp
      obtain ⟨rest', hrest', rfl⟩ := Option.map_eq_some_iff.mp h
      have hskip : ((kind, body) :: entries rest).find? (fun x => p x.1 x.2) =
          (entries rest).find? fun x => p x.1 x.2 := List.find?_cons_of_neg hp
      rw [hskip] at hf
      rw [ih hrest' hf]

/-- The first option that meets the condition, before and after. -/
theorem Rewritten.find (h : Rewritten p f l l')
    (hp : ∀ kind body, p kind body = true → p kind (f body) = true) :
    ∃ kind body, (entries l).find? (fun x => p x.1 x.2) = some (kind, body) ∧
      (entries l').find? (fun x => p x.1 x.2) = some (kind, f body) := by
  obtain ⟨-, pre, kind, body, post, hpre, hk, hwas, hnow⟩ := h
  have hnone : pre.find? (fun x => p x.1 x.2) = none :=
    List.find?_eq_none.mpr fun x hx => by rw [hpre x hx]; exact Bool.false_ne_true
  refine ⟨kind, body, ?_, ?_⟩
  · rw [hwas, List.find?_append, hnone, Option.none_or]
    exact List.find?_cons_of_pos hk
  · rw [hnow, List.find?_append, hnone, Option.none_or]
    exact List.find?_cons_of_pos (hp kind body hk)

end Rewriting

section Writing

/-- An option as it is written, or padding. -/
def encode : Option (UInt8 × List UInt8) → List UInt8
  | none => [1]
  | some (kind, body) => kind :: UInt8.ofNat (body.length + 2) :: body

/-- An option that is read as it is written. -/
def Plain (x : UInt8 × List UInt8) : Prop := x.1 ≠ 0 ∧ x.1 ≠ 1 ∧ x.2.length ≤ 253

/-- What is written is read, up to a tail that is not an option. -/
theorem entries_encode {pieces : List (Option (UInt8 × List UInt8))} {tail : List UInt8}
    (h : ∀ x, some x ∈ pieces → Plain x) (htail : Stops tail = true) :
    entries (pieces.flatMap encode ++ tail) = pieces.filterMap id := by
  induction pieces with
  | nil => exact entries_stop htail
  | cons piece rest ih =>
    have hrest := ih fun x hx => h x (List.mem_cons_of_mem piece hx)
    rw [List.flatMap_cons, List.append_assoc]
    match piece with
    | none =>
      rw [List.filterMap_cons_none rfl, ← hrest]
      rfl
    | some (kind, body) =>
      have hplain := h (kind, body) List.mem_cons_self
      have hle : body.length ≤ 253 := hplain.2.2
      have hlen : (UInt8.ofNat (body.length + 2)).toNat = body.length + 2 := by
        rw [UInt8.toNat_ofNat']
        omega
      rw [List.filterMap_cons_some (f := id) rfl, ← hrest]
      exact entries_option hplain.1 hplain.2.1 hlen

end Writing

end FuryBrowser.OptionList
