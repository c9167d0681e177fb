import FuryBrowser.ProfileRelay

/-!
# Reading a head off a connection

A head is read in blocks, however the network cuts what was sent. The bytes of the last block that
come after the head are handed on beside it, and what is not read yet follows them. There are none
exactly where a block ends with the head.
-/

namespace FuryBrowser.ProfileRelay

open AgentDisk TextBytes TextLines RelayStreams

section Ends

variable {a b : Bytes} {pos : ℕ}

/-- A head ends in a blank line, which is part of it. -/
theorem findHeadersEnd_take (h : findHeadersEnd a = some pos) :
    ∃ x, a.take pos = x ++ headEnd ∧ pos = x.length + 4 := by
  induction a generalizing pos with
  | nil => simp [findHeadersEnd] at h
  | cons c rest ih =>
    rw [findHeadersEnd] at h
    split at h
    · rename_i hhere
      obtain ⟨more, hmore⟩ := List.isPrefixOf_iff_prefix.mp hhere
      cases h
      exact ⟨[], by rw [← hmore]; rfl, rfl⟩
    · obtain ⟨p, hp, rfl⟩ := Option.map_eq_some_iff.mp h
      obtain ⟨x, hx, hlen⟩ := ih hp
      exact ⟨c :: x, by rw [List.take_succ_cons, hx]; rfl, by rw [List.length_cons, hlen]⟩

theorem findHeadersEnd_le (h : findHeadersEnd a = some pos) : 4 ≤ pos ∧ pos ≤ a.length := by
  obtain ⟨x, hx, hlen⟩ := findHeadersEnd_take h
  have hcount := congrArg List.length hx
  rw [List.length_take, List.length_append] at hcount
  simp [headEnd] at hcount
  omega

/-- More bytes after a head do not move its end. -/
theorem findHeadersEnd_append (h : findHeadersEnd a = some pos) :
    findHeadersEnd (a ++ b) = some pos := by
  induction a generalizing pos with
  | nil => simp [findHeadersEnd] at h
  | cons c rest ih =>
    rw [findHeadersEnd] at h
    rw [List.cons_append, findHeadersEnd]
    split at h
    · rename_i hhere
      obtain ⟨more, hmore⟩ := List.isPrefixOf_iff_prefix.mp hhere
      rw [if_pos (List.isPrefixOf_iff_prefix.mpr ⟨more ++ b, by
        rw [← List.append_assoc, hmore, List.cons_append]⟩)]
      exact h
    · rename_i hnot
      obtain ⟨p, hp, rfl⟩ := Option.map_eq_some_iff.mp h
      have hlong := findHeadersEnd_le hp
      have hnot' : ¬headEnd.isPrefixOf (c :: (rest ++ b)) = true := by
        intro hhere
        refine hnot (List.isPrefixOf_iff_prefix.mpr ?_)
        refine List.prefix_of_prefix_length_le (List.isPrefixOf_iff_prefix.mp hhere)
          (List.prefix_append (c :: rest) b) ?_
        simp [headEnd]
        omega
      rw [if_neg hnot', ih hp]
      rfl

/-- An end that lies in the first part is found there. -/
theorem findHeadersEnd_of_append (h : findHeadersEnd (a ++ b) = some pos) (hle : pos ≤ a.length) :
    findHeadersEnd a = some pos := by
  induction a generalizing pos with
  | nil =>
    have hlong := findHeadersEnd_le h
    simp at hle
    omega
  | cons c rest ih =>
    rw [List.cons_append, findHeadersEnd] at h
    rw [findHeadersEnd]
    split at h
    · rename_i hhere
      cases h
      have hfirst : headEnd <+: c :: rest :=
        List.prefix_of_prefix_length_le (List.isPrefixOf_iff_prefix.mp hhere)
          (List.prefix_append (c :: rest) b) hle
      rw [if_pos (List.isPrefixOf_iff_prefix.mpr hfirst)]
    · rename_i hnot
      obtain ⟨p, hp, rfl⟩ := Option.map_eq_some_iff.mp h
      have hnot' : ¬headEnd.isPrefixOf (c :: rest) = true := by
        intro hhere
        refine hnot (List.isPrefixOf_iff_prefix.mpr ?_)
        exact (List.isPrefixOf_iff_prefix.mp hhere).trans (List.prefix_append (c :: rest) b)
      rw [if_neg hnot', ih hp (by simpa using hle)]
      rfl

end Ends

section Blocks

/-- One of the blocks that reading makes of the pieces ends there: a piece does, or the reader's
room for it. -/
def blockEndsAt (size : ℕ) : List Bytes → ℕ → Bool
  | [], _ => false
  | piece :: rest, pos =>
    if pos ≤ piece.length then pos = piece.length || pos % size = 0
    else blockEndsAt size rest (pos - piece.length)

variable {size : ℕ} {pieces rest : List Bytes} {block : Bytes}

theorem nextBlock_none (h : nextBlock size pieces = none) : pieces.flatten = [] := by
  induction pieces with
  | nil => rfl
  | cons piece rest ih =>
    cases piece with
    | nil => exact ih h
    | cons b piece => simp [nextBlock] at h

/-- A block is the beginning of what arrives. -/
theorem nextBlock_some (hsize : 0 < size) (h : nextBlock size pieces = some (block, rest)) :
    block ++ rest.flatten = pieces.flatten ∧ 0 < block.length ∧ block.length ≤ size := by
  induction pieces with
  | nil => simp [nextBlock] at h
  | cons piece more ih =>
    cases piece with
    | nil => exact ih h
    | cons b piece =>
      simp only [nextBlock, Option.some.injEq, Prod.mk.injEq] at h
      obtain ⟨rfl, rfl⟩ := h
      refine ⟨?_, ?_, ?_⟩
      · rw [List.flatten_cons, List.flatten_cons, ← List.append_assoc, List.take_append_drop]
      · simp only [List.length_take, List.length_cons]
        omega
      · rw [List.length_take]
        omega

/-- The first block ends there, or a later one does. -/
theorem blockEndsAt_iff {pos : ℕ} (hsize : 0 < size)
    (h : nextBlock size pieces = some (block, rest)) (hpos : 0 < pos) :
    blockEndsAt size pieces pos = true ↔
      pos = block.length ∨
        block.length < pos ∧ blockEndsAt size rest (pos - block.length) = true := by
  induction pieces with
  | nil => simp [nextBlock] at h
  | cons piece more ih =>
    cases piece with
    | nil =>
      rw [blockEndsAt, List.length_nil, if_neg (Nat.not_le.mpr hpos)]
      exact ih h
    | cons b piece =>
      simp only [nextBlock, Option.some.injEq, Prod.mk.injEq] at h
      obtain ⟨rfl, rfl⟩ := h
      generalize b :: piece = whole
      rw [blockEndsAt, blockEndsAt, List.length_take, List.length_drop]
      rcases Nat.lt_or_ge size whole.length with hlong | hshort
      · rw [Nat.min_eq_left (Nat.le_of_lt hlong)]
        rcases Nat.lt_trichotomy pos size with hlt | rfl | hgt
        · have hne : ¬pos % size = 0 := by
            rw [Nat.mod_eq_of_lt hlt]
            omega
          rw [if_pos (by omega)]
          simp [hne]
          omega
        · rw [if_pos (by omega)]
          simp
        · -- the rest of the piece begins a block further on
          have hmod : (pos - size) % size = pos % size :=
            (Nat.mod_eq_sub_mod (Nat.le_of_lt hgt)).symm
          rw [hmod, Nat.sub_sub_sub_cancel_right (Nat.le_of_lt hlong)]
          by_cases hin : pos ≤ whole.length
          · rw [if_pos hin, if_pos (by omega)]
            simp
            omega
          · rw [if_neg hin, if_neg (by omega)]
            simp [hgt]
            omega
      · rw [Nat.min_eq_right hshort, Nat.sub_eq_zero_of_le hshort]
        by_cases hin : pos ≤ whole.length
        · rw [if_pos hin]
          rcases Nat.lt_or_ge pos whole.length with hlt | hge
          · have hne : ¬pos % size = 0 := by
              rw [Nat.mod_eq_of_lt (by omega)]
              omega
            simp [hne]
            omega
          · simp
            omega
        · have hgt : whole.length < pos := Nat.lt_of_not_le hin
          rw [if_neg hin, if_neg (by omega), Nat.sub_zero]
          simp [hgt, Nat.ne_of_gt hgt]

end Blocks

section Reading

variable {s t : Stream} {size turns : ℕ} {block buf : Bytes} {head : Text} {leftover : Bytes}

/-- Reading takes a block from what arrives, and nothing else changes. -/
theorem readBlock_ok (h : readBlock size s = .ok block t) (hne : block ≠ []) :
    nextBlock size s.arrivals = some (block, t.arrivals) ∧
      t = { s with arrivals := t.arrivals } := by
  unfold readBlock at h
  cases hnext : nextBlock size s.arrivals with
  | some next =>
    rw [hnext] at h
    cases h
    exact ⟨rfl, rfl⟩
  | none =>
    rw [hnext] at h
    cases hend : s.ending with
    | closed =>
      rw [hend] at h
      cases h
      exact absurd rfl hne
    | failed e =>
      rw [hend] at h
      cases h
    | silent =>
      rw [hend] at h
      cases h

/-- Where something arrives, reading succeeds. -/
theorem readBlock_some {next : Bytes × List Bytes} (h : nextBlock size s.arrivals = some next) :
    readBlock size s = .ok next.1 { s with arrivals := next.2 } := by
  simp only [readBlock, h]

/-- A turn of the loop that found the end of the head, or went on. -/
theorem readHeadUpTo_succ (h : readHeadUpTo (turns + 1) buf s = .ok (head, leftover) t) :
    ∃ block s', readBlock 1024 s = .ok block s' ∧ block ≠ [] ∧
      ((∃ pos, findHeadersEnd (buf ++ block) = some pos ∧
          head = fromUtf8Lossy ((buf ++ block).take pos) ∧ leftover = (buf ++ block).drop pos ∧
          t = s') ∨
        findHeadersEnd (buf ++ block) = none ∧ (buf ++ block).length ≤ headLimit ∧
          readHeadUpTo turns (buf ++ block) s' = .ok (head, leftover) t) := by
  change EStateM.bind (readBlock 1024) _ s = _ at h
  unfold EStateM.bind at h
  cases hread : readBlock 1024 s with
  | error e s' =>
    rw [hread] at h
    cases h
  | ok block s' =>
    rw [hread] at h
    refine ⟨block, s', rfl, ?_⟩
    dsimp only at h
    by_cases hne : block = []
    · rw [if_pos hne] at h
      cases h
    · rw [if_neg hne] at h
      refine ⟨hne, ?_⟩
      cases hfound : findHeadersEnd (buf ++ block) with
      | some pos =>
        simp only [hfound] at h
        cases h
        exact .inl ⟨pos, rfl, rfl, rfl, rfl⟩
      | none =>
        simp only [hfound] at h
        by_cases hlimit : headLimit < (buf ++ block).length
        · rw [if_pos hlimit] at h
          cases h
        · rw [if_neg hlimit] at h
          exact .inr ⟨rfl, Nat.le_of_not_lt hlimit, h⟩

/-- What reading a head says of it: where it ends in what was sent, its text, what came with it, and
that a block ends with it exactly where nothing did. -/
theorem readHeadUpTo_ok (hbuf : findHeadersEnd buf = none)
    (h : readHeadUpTo turns buf s = .ok (head, leftover) t) :
    ∃ pos, findHeadersEnd (buf ++ s.arrivals.flatten) = some pos ∧
      head = fromUtf8Lossy ((buf ++ s.arrivals.flatten).take pos) ∧
      leftover ++ t.arrivals.flatten = (buf ++ s.arrivals.flatten).drop pos ∧
      (leftover = [] ↔ blockEndsAt 1024 s.arrivals (pos - buf.length) = true) ∧
      t = { s with arrivals := t.arrivals } := by
  induction turns generalizing buf s with
  | zero => cases h
  | succ turns ih =>
    obtain ⟨block, s', hread, hne, hcases⟩ := readHeadUpTo_succ h
    obtain ⟨hnext, hs'⟩ := readBlock_ok hread hne
    obtain ⟨hflat, -, -⟩ := nextBlock_some (by decide) hnext
    have hwhole : buf ++ s.arrivals.flatten = (buf ++ block) ++ s'.arrivals.flatten := by
      rw [← hflat, List.append_assoc]
    have hafter {pos : ℕ} {x : Bytes} (hpos : findHeadersEnd (buf ++ x) = some pos) :
        buf.length < pos := by
      refine Nat.lt_of_not_le fun hle => ?_
      rw [findHeadersEnd_of_append hpos hle] at hbuf
      cases hbuf
    rw [hwhole]
    rcases hcases with ⟨pos, hpos, rfl, rfl, rfl⟩ | ⟨hpos, -, hrest⟩
    · have hle := (findHeadersEnd_le hpos).2
      have hgt := hafter hpos
      refine ⟨pos, findHeadersEnd_append hpos, ?_, ?_, ?_, hs'⟩
      · rw [List.take_append_of_le_length hle]
      · rw [List.drop_append_of_le_length hle]
      · rw [blockEndsAt_iff (by decide) hnext (Nat.sub_pos_of_lt hgt), List.drop_eq_nil_iff]
        rw [List.length_append] at hle ⊢
        omega
    · obtain ⟨pos, hfound, hhead, hleft, hempty, ht⟩ := ih hpos hrest
      have hgt : (buf ++ block).length < pos := by
        refine Nat.lt_of_not_le fun hle => ?_
        rw [findHeadersEnd_of_append hfound hle] at hpos
        cases hpos
      refine ⟨pos, hfound, hhead, hleft, ?_, ?_⟩
      · rw [List.length_append] at hgt hempty
        rw [hempty, blockEndsAt_iff (by decide) hnext (by omega), Nat.sub_sub]
        have hne' : pos - buf.length ≠ block.length := by omega
        have hlt' : block.length < pos - buf.length := by omega
        simp [hne', hlt']
      · rw [ht, hs']

theorem readRequestHead_ok (h : readRequestHead s = .ok (head, leftover) t) :
    ∃ pos, findHeadersEnd s.arrivals.flatten = some pos ∧
      head = fromUtf8Lossy (s.arrivals.flatten.take pos) ∧
      leftover ++ t.arrivals.flatten = s.arrivals.flatten.drop pos ∧
      (leftover = [] ↔ blockEndsAt 1024 s.arrivals pos = true) ∧
      t = { s with arrivals := t.arrivals } :=
  readHeadUpTo_ok rfl h

/-- A head within the limit is read, however it is cut. -/
theorem readHeadUpTo_total {pos : ℕ} (hbuf : findHeadersEnd buf = none)
    (hpos : findHeadersEnd (buf ++ s.arrivals.flatten) = some pos) (hlimit : pos ≤ headLimit)
    (hturns : headLimit < turns + buf.length) :
    ∃ head leftover t, readHeadUpTo turns buf s = .ok (head, leftover) t := by
  induction turns generalizing buf s with
  | zero =>
    have hlong : pos ≤ buf.length := by omega
    rw [findHeadersEnd_of_append hpos hlong] at hbuf
    cases hbuf
  | succ turns ih =>
    cases hnext : nextBlock 1024 s.arrivals with
    | none =>
      rw [nextBlock_none hnext, List.append_nil, hbuf] at hpos
      cases hpos
    | some next =>
      obtain ⟨block, rest⟩ := next
      obtain ⟨hflat, hlen, -⟩ := nextBlock_some (by decide) hnext
      have hne : block ≠ [] := List.ne_nil_of_length_pos hlen
      have hwhole : buf ++ s.arrivals.flatten = (buf ++ block) ++ rest.flatten := by
        rw [← hflat, List.append_assoc]
      rw [hwhole] at hpos
      change ∃ head leftover t, EStateM.bind (readBlock 1024) _ s = _
      simp only [EStateM.bind, readBlock_some hnext, if_neg hne]
      cases hfound : findHeadersEnd (buf ++ block) with
      | some p => exact ⟨_, _, _, rfl⟩
      | none =>
        have hshort : (buf ++ block).length < pos := by
          refine Nat.lt_of_not_le fun hle => ?_
          rw [findHeadersEnd_of_append hpos hle] at hfound
          cases hfound
        have hgo : ¬headLimit < (buf ++ block).length := by omega
        rw [List.length_append] at hgo
        simp only [List.length_append, if_neg hgo]
        exact ih hfound hpos (by rw [List.length_append]; omega)

theorem readRequestHead_total {pos : ℕ} (hpos : findHeadersEnd s.arrivals.flatten = some pos)
    (hlimit : pos ≤ headLimit) : ∃ head leftover t, readRequestHead s = .ok (head, leftover) t :=
  readHeadUpTo_total rfl hpos hlimit (Nat.lt_succ_self headLimit)

end Reading

end FuryBrowser.ProfileRelay
