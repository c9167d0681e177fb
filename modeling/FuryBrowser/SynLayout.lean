import FuryBrowser.SynSegments

/-!
# The SYN that is laid out anew

A SYN is built from what its options say, in the order of the persona's system. Each option that the
system has is found in it as it was found before, and the header is of whole words and not too long.
All of this needs a window scale of one byte: a longer one is copied with all its bytes under the
length of three.
-/

namespace FuryBrowser.SynShape

open AgentDisk ByteFields InternetChecksum OptionList

section Pieces

variable {opts : List (UInt8 × Bytes)} {layout : List Opt} {opt : Opt} {out : Bytes}

/-- The kind of an option. -/
def Opt.kind : Opt → UInt8
  | .eol => 0
  | .nop => 1
  | .mss => 2
  | .ws => 3
  | .sok => 4
  | .ts => 8

/-- How long it is at most. -/
def Opt.width : Opt → ℕ
  | .eol => 0
  | .nop => 1
  | .mss => 4
  | .ws => 3
  | .sok => 2
  | .ts => 10

/-- What it carries into the new SYN. -/
def Opt.content (opts : List (UInt8 × Bytes)) : Opt → Option Bytes
  | .eol => none
  | .nop => none
  | .mss => (find opts 2).filter (·.length = 2)
  | .ws => find opts 3
  | .sok => (find opts 4).map fun _ => []
  | .ts => (find opts 8).filter (·.length = 8)

/-- The pieces it becomes. -/
def Opt.pieces (opts : List (UInt8 × Bytes)) (opt : Opt) : List (Option (UInt8 × Bytes)) :=
  if opt = .nop then [none] else ((opt.content opts).map fun body => some (opt.kind, body)).toList

/-- The window scale, where there is one, is one byte. -/
def ScaleFits (opts : List (UInt8 × Bytes)) : Prop := ∀ ws, find opts 3 = some ws → ws.length = 1

theorem kind_inj {o o' : Opt} (h : o.kind = o'.kind) : o = o' := by
  cases o <;> cases o' <;> first | rfl | exact absurd h (by decide)

/-- What an option of the layout carries fits it. -/
theorem length_content (hws : ScaleFits opts) {body : Bytes} (h : opt.content opts = some body) :
    body.length + 2 = opt.width := by
  cases opt with
  | eol => cases h
  | nop => cases h
  | mss =>
    have hlen := (Option.filter_eq_some_iff.mp h).2
    rw [of_decide_eq_true hlen, Opt.width]
  | ws => rw [hws body h, Opt.width]
  | sok =>
    obtain ⟨-, -, rfl⟩ := Option.map_eq_some_iff.mp h
    rfl
  | ts =>
    have hlen := (Option.filter_eq_some_iff.mp h).2
    rw [of_decide_eq_true hlen, Opt.width]

theorem plain_content (hws : ScaleFits opts) {body : Bytes} (h : opt.content opts = some body) :
    Plain (opt.kind, body) := by
  have hlen := length_content hws h
  have hwidth : opt.width ≤ 10 := by cases opt <;> decide
  have hkind : opt.kind ≠ 0 ∧ opt.kind ≠ 1 := by
    cases opt with
    | eol => cases h
    | nop => cases h
    | mss => decide
    | ws => decide
    | sok => decide
    | ts => decide
  refine ⟨hkind.1, hkind.2, ?_⟩
  show body.length ≤ 253
  omega

/-- An option that is written as it is read. -/
theorem encode_content (hws : ScaleFits opts) {body : Bytes} (h : opt.content opts = some body) :
    encode (some (opt.kind, body)) = [opt.kind, UInt8.ofNat opt.width] ++ body := by
  rw [encode, length_content hws h]
  rfl

theorem place_eq (hws : ScaleFits opts) (hopt : opt ≠ .eol) :
    place opts out opt = out ++ (opt.pieces opts).flatMap encode := by
  have hone (o : Opt) (hnop : o ≠ .nop) : (o.pieces opts).flatMap encode =
      (o.content opts).elim [] fun body => [o.kind, UInt8.ofNat o.width] ++ body := by
    rw [Opt.pieces, if_neg hnop]
    cases h : o.content opts with
    | none => rfl
    | some body =>
      rw [Option.map_some, Option.toList_some, List.flatMap_singleton, encode_content hws h]
      rfl
  cases opt with
  | eol => exact absurd rfl hopt
  | nop => rfl
  | mss =>
    rw [hone .mss (by decide), place, Opt.content]
    cases h : (find opts 2).filter (·.length = 2) with
    | none => exact (List.append_nil out).symm
    | some body =>
      have hlen := of_decide_eq_true (Option.filter_eq_some_iff.mp h).2
      dsimp only
      rw [bytes16_u16 hlen]
      rfl
  | ws =>
    rw [hone .ws (by decide), place, Opt.content]
    cases find opts 3 with
    | none => exact (List.append_nil out).symm
    | some body => rfl
  | sok =>
    rw [hone .sok (by decide), place, Opt.content]
    cases find opts 4 with
    | none => exact (List.append_nil out).symm
    | some body => rfl
  | ts =>
    rw [hone .ts (by decide), place, Opt.content]
    cases (find opts 8).filter (·.length = 8) with
    | none => exact (List.append_nil out).symm
    | some body => rfl

theorem foldl_place (hws : ScaleFits opts) (hlayout : .eol ∉ layout) :
    layout.foldl (place opts) out = out ++ (layout.flatMap (Opt.pieces opts)).flatMap encode := by
  induction layout generalizing out with
  | nil => exact (List.append_nil out).symm
  | cons opt layout ih =>
    rw [List.mem_cons, not_or] at hlayout
    rw [List.foldl_cons, place_eq hws (Ne.symm hlayout.1), ih hlayout.2, List.append_assoc,
      List.flatMap_cons, List.flatMap_append]

theorem length_pieces (hws : ScaleFits opts) (layout : List Opt) :
    ((layout.flatMap (Opt.pieces opts)).flatMap encode).length ≤ (layout.map Opt.width).sum := by
  induction layout with
  | nil => exact Nat.le_refl 0
  | cons opt layout ih =>
    have hone : ((opt.pieces opts).flatMap encode).length ≤ opt.width := by
      rw [Opt.pieces]
      split
      · rename_i hnop
        rw [hnop]
        rfl
      · cases h : opt.content opts with
        | none => exact Nat.zero_le _
        | some body =>
          have hlen := length_content hws h
          rw [Option.map_some, Option.toList_some, List.flatMap_singleton, encode_content hws h,
            List.length_append]
          exact Nat.le_of_eq ((Nat.add_comm 2 body.length).trans hlen)
    rw [List.flatMap_cons, List.flatMap_append, List.length_append, List.map_cons, List.sum_cons]
    omega

/-- Every option of the layout is read as it was. -/
theorem find_pieces (opts : List (UInt8 × Bytes)) (opt : Opt) (layout : List Opt) :
    ((layout.flatMap (Opt.pieces opts)).filterMap id).find? (·.1 = opt.kind) =
      if opt ∈ layout then (opt.content opts).map (opt.kind, ·) else none := by
  have hpieces (o : Opt) : (o.pieces opts).filterMap id =
      ((o.content opts).map (o.kind, ·)).toList := by
    rw [Opt.pieces]
    split
    · rename_i hnop
      rw [hnop]
      rfl
    · cases o.content opts <;> rfl
  induction layout with
  | nil => rfl
  | cons o layout ih =>
    rw [List.flatMap_cons, List.filterMap_append, List.find?_append, ih, hpieces]
    cases hcontent : o.content opts with
    | none =>
      by_cases heq : opt = o
      · subst heq
        rw [if_pos List.mem_cons_self, hcontent]
        split <;> rfl
      · simp only [List.mem_cons, heq, false_or]
        rfl
    | some body =>
      by_cases heq : opt = o
      · subst heq
        rw [if_pos List.mem_cons_self, hcontent]
        simp only [Option.map_some, Option.toList_some, List.find?_singleton, decide_true, if_true,
          Option.some_or]
      · have hkind : o.kind ≠ opt.kind := fun hsame => heq (kind_inj hsame).symm
        simp only [List.mem_cons, heq, false_or, Option.map_some, Option.toList_some,
          List.find?_singleton, decide_eq_true_eq, if_neg hkind, Option.none_or]

end Pieces

section Rebuilding

variable {tcp : Headed} {os : Os}

theorem length_pad (out : Bytes) :
    (pad out).length % 4 = 0 ∧ (pad out).length < out.length + 4 := by
  rw [pad, List.length_append, List.length_replicate]
  omega

/-- The pieces of the options of a system. -/
def laidPieces (tcp : Headed) (os : Os) : List (Option (UInt8 × Bytes)) :=
  os.shape.layout.flatMap (Opt.pieces tcp.options)

/-- The end of the list comes last, and the rest is short. -/
theorem layout_split (os : Os) : ∃ free ending : List Opt, os.shape.layout = free ++ ending ∧
    .eol ∉ free ∧ (ending = [] ∨ ending = [.eol]) ∧ (free.map Opt.width).sum ≤ 32 := by
  cases os with
  | windows => exact ⟨windows.layout, [], rfl, by decide, .inl rfl, by decide⟩
  | macOs =>
    exact ⟨[.mss, .nop, .ws, .nop, .nop, .ts, .sok], [.eol], rfl, by decide, .inr rfl, by decide⟩
  | linux => exact ⟨linux.layout, [], rfl, by decide, .inl rfl, by decide⟩

/-- What is laid out is the front, the pieces and some zeros. -/
theorem laid_eq (hws : ScaleFits tcp.options) (os : Os) :
    (∃ zeros : ℕ, laid tcp os.shape =
      tcp.front ++ ((laidPieces tcp os).flatMap encode ++ List.replicate zeros 0)) ∧
    (laid tcp os.shape).length ≤ 60 := by
  obtain ⟨free, ending, hlayout, hfree, hending, hsum⟩ := layout_split os
  have hwidth := length_pieces hws free
  have hfront := tcp.front_length
  rw [laidPieces, laid, hlayout, List.foldl_append, foldl_place hws hfree, List.flatMap_append]
  generalize hdone : (free.flatMap (Opt.pieces tcp.options)).flatMap encode = done at hwidth
  have hout : (tcp.front ++ done).length ≤ 52 := by
    rw [List.length_append, hfront]
    omega
  have hpad (l : Bytes) : ∃ zeros, pad l = l ++ List.replicate zeros 0 := ⟨_, rfl⟩
  rcases hending with rfl | rfl
  · obtain ⟨zeros, hzeros⟩ := hpad (tcp.front ++ done)
    have hlt := (length_pad (tcp.front ++ done)).2
    rw [List.foldl_nil, List.flatMap_nil, List.append_nil, hdone]
    refine ⟨⟨zeros, ?_⟩, by omega⟩
    rw [hzeros, List.append_assoc]
  · obtain ⟨few, hfew⟩ := hpad (tcp.front ++ done ++ [0])
    obtain ⟨more, hmore⟩ := hpad (pad (tcp.front ++ done ++ [0]))
    have hin := length_pad (tcp.front ++ done ++ [0])
    have hlt := length_pad (pad (tcp.front ++ done ++ [0]))
    rw [List.length_append, List.length_singleton] at hin
    rw [List.foldl_cons, List.foldl_nil, place,
      show [Opt.eol].flatMap (Opt.pieces tcp.options) = [] from rfl, List.append_nil, hdone]
    refine ⟨⟨1 + few + more, ?_⟩, by omega⟩
    rw [hmore, hfew, ← List.replicate_append_replicate, ← List.replicate_append_replicate]
    simp only [List.append_assoc]
    rfl

theorem rebuildSyn_bytes_length (tcp : Headed) (os : Os) :
    (rebuildSyn tcp os.shape).bytes.length = (laid tcp os.shape).length := by
  have hle := le_length_laid tcp os.shape
  rw [Headed.length_bytes, rebuildSyn, List.length_drop]
  omega

theorem take_laid (hws : ScaleFits tcp.options) (os : Os) :
    (laid tcp os.shape).take 20 = tcp.front := by
  obtain ⟨⟨zeros, hlaid⟩, -⟩ := laid_eq hws os
  rw [hlaid]
  exact List.take_left' tcp.front_length

/-- A byte of the new front, and who has written it. -/
theorem getElem?_synFront (hws : ScaleFits tcp.options) (os : Os) :
    (∀ i < 12, (synFront tcp os.shape)[i]? = tcp.front[i]?) ∧
    (synFront tcp os.shape)[12]? =
      some (UInt8.ofNat ((laid tcp os.shape).length / 4 * 16 + (tcp.byte 12).toNat % 16)) ∧
    (synFront tcp os.shape)[13]? = tcp.front[13]? ∧
    (∀ i < 2, (synFront tcp os.shape)[14 + i]? = (bytes16 (synWindow tcp os.shape))[i]?) ∧
    (synFront tcp os.shape).drop 18 = tcp.front.drop 18 := by
  have hfront := tcp.front_length
  rw [synFront, take_laid hws os]
  obtain ⟨b, hb⟩ : ∃ b, b = UInt8.ofNat ((laid tcp os.shape).length / 4 * 16 +
    (tcp.byte 12).toNat % 16) := ⟨_, rfl⟩
  obtain ⟨w, hw⟩ : ∃ w, w = bytes16 (synWindow tcp os.shape) := ⟨_, rfl⟩
  have hwlen : w.length = 2 := by rw [hw, length_bytes16]
  rw [← hb, ← hw]
  have hfirst : (patch tcp.front 12 [b]).length = 20 := by
    rw [length_patch (by rw [hfront]; exact Nat.le_add_left 13 7), hfront]
  have hsecond : (patch (patch tcp.front 12 [b]) 14 w).length = 20 := by
    rw [length_patch (by omega), hfirst]
  have hbefore (i : ℕ) (hi : i < 16) :
      (patch (patch (patch tcp.front 12 [b]) 14 w) 16 (bytes16 0))[i]? =
        (patch (patch tcp.front 12 [b]) 14 w)[i]? := getElem?_patch_before (by omega) hi
  refine ⟨fun i hi => ?_, ?_, ?_, fun i hi => ?_, ?_⟩
  · rw [hbefore i (by omega), getElem?_patch_before (by omega) (by omega),
      getElem?_patch_before (by omega) hi]
  · rw [hbefore 12 (by decide), getElem?_patch_before (by omega) (by decide)]
    exact getElem?_patch_inside (k := 0) (by omega) (Nat.zero_lt_succ 0)
  · rw [hbefore 13 (by decide), getElem?_patch_before (by omega) (by decide)]
    exact getElem?_patch_behind (by rw [hfront]; exact Nat.le_add_left 13 7) (Nat.le_refl 13)
  · rw [hbefore (14 + i) (by omega)]
    exact getElem?_patch_inside (by omega) (by omega)
  · rw [drop_patch (by rw [hsecond, length_bytes16]; decide) (Nat.le_refl 18),
      drop_patch (by omega) (by omega),
      drop_patch (by rw [hfront]; exact Nat.le_add_left 13 7) (Nat.le_add_left 13 5)]

/-- What the new header says of itself. -/
theorem dataOffset_rebuildSyn (hws : ScaleFits tcp.options) (os : Os) :
    (rebuildSyn tcp os.shape).dataOffset = (laid tcp os.shape).length := by
  obtain ⟨-, hle⟩ := laid_eq hws os
  have hwords := (length_pad (os.shape.layout.foldl (place tcp.options) tcp.front)).1
  rw [← laid] at hwords
  rw [Headed.dataOffset, Headed.byte, List.getD_eq_getElem?_getD, rebuildSyn]
  dsimp only
  rw [show ((12 : Fin 20) : ℕ) = 12 from rfl, (getElem?_synFront hws os).2.1, Option.getD_some,
    UInt8.toNat_ofNat']
  omega

theorem synWindow_le (tcp : Headed) (shape : Shape) : synWindow tcp shape ≤ tcp.word 14 15 :=
  Nat.min_le_right _ _

theorem word_rebuildSyn (hws : ScaleFits tcp.options) (os : Os) :
    (rebuildSyn tcp os.shape).word 14 15 = synWindow tcp os.shape := by
  have hget := (getElem?_synFront hws os).2.2.2.1
  have hle := synWindow_le tcp os.shape
  have hlt := word_lt (tcp.byte 14) (tcp.byte 15)
  rw [← Headed.word] at hlt
  rw [Headed.word, Headed.byte, Headed.byte, List.getD_eq_getElem?_getD,
    List.getD_eq_getElem?_getD, rebuildSyn]
  dsimp only
  rw [show ((14 : Fin 20) : ℕ) = 14 + 0 from rfl, show ((15 : Fin 20) : ℕ) = 14 + 1 from rfl,
    hget 0 (by decide), hget 1 (by decide)]
  exact word_bytes16 (by omega)

theorem options_rebuildSyn (hws : ScaleFits tcp.options) (os : Os) :
    (rebuildSyn tcp os.shape).options = (laidPieces tcp os).filterMap id := by
  obtain ⟨⟨zeros, hlaid⟩, -⟩ := laid_eq hws os
  have hoff := dataOffset_rebuildSyn hws os
  have hle := le_length_laid tcp os.shape
  have hregion : (rebuildSyn tcp os.shape).region =
      (laidPieces tcp os).flatMap encode ++ List.replicate zeros 0 := by
    rw [Headed.region, Headed.optionsLen, hoff, rebuildSyn_bytes_length, Nat.min_self,
      Nat.max_eq_right hle, rebuildSyn]
    dsimp only
    rw [List.take_of_length_le (by rw [List.length_drop]), hlaid]
    exact List.drop_left' tcp.front_length
  rw [Headed.options, hregion]
  refine entries_encode (fun x hx => ?_) ?_
  · obtain ⟨opt, -, hin⟩ := List.mem_flatMap.mp hx
    rw [Opt.pieces] at hin
    split at hin
    · cases List.mem_singleton.mp hin
    · rw [Option.mem_toList, Option.map_eq_some_iff] at hin
      obtain ⟨body, hbody, hsame⟩ := hin
      cases hsame
      exact plain_content hws hbody
  · cases zeros <;> rfl

/-- An option that the system has is found as it was. -/
theorem find_rebuildSyn (hws : ScaleFits tcp.options) {os : Os} {opt : Opt}
    (h : opt ∈ os.shape.layout) :
    find (rebuildSyn tcp os.shape).options opt.kind = opt.content tcp.options := by
  rw [find, options_rebuildSyn hws, laidPieces, find_pieces, if_pos h, Option.map_map]
  exact Option.map_id'

end Rebuilding

end FuryBrowser.SynShape
