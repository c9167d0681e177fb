import FuryBrowser.SynShape

/-!
# Segments that a shaper rewrites

What each rewriting of a segment leaves as it was: the fields of the fixed header, the payload, and
what the options say. A timestamp is moved and nothing else, and the checksum that is filled in is
the one that the far side wants.
-/

namespace FuryBrowser.SynShape

open AgentDisk ByteFields InternetChecksum OptionList

namespace Headed

variable {b b' tcp tcp' : Headed} {src dst region : Bytes} {n : ℕ}

theorem length_bytes (b : Headed) : b.bytes.length = 20 + b.rest.length := by
  rw [bytes, List.length_append, b.front_length]

theorem headed_bytes (b : Headed) : headed b.bytes = some b := by
  have hfront := b.front_length
  rw [headed, dif_pos (by rw [length_bytes]; omega)]
  congr 1
  ext1
  · exact List.take_left' hfront
  · exact List.drop_left' hfront

theorem bytes_of_headed {l : Bytes} (h : headed l = some b) : b.bytes = l := by
  rw [headed] at h
  split at h
  · cases h
    exact List.take_append_drop 20 l
  · cases h

theorem byte_eq_getD (b : Headed) (i : Fin 20) : b.byte i = b.bytes.getD i 0 := by
  have hi : (i : ℕ) < b.front.length := by
    rw [b.front_length]
    exact i.isLt
  rw [byte, bytes, List.getD_eq_getElem?_getD, List.getD_eq_getElem?_getD,
    List.getElem?_append_left hi]

theorem optionsLen_le (tcp : Headed) : tcp.optionsLen ≤ tcp.rest.length := by
  have hlen := tcp.length_bytes
  rw [optionsLen]
  omega

theorem length_region (tcp : Headed) : tcp.region.length = tcp.optionsLen := by
  rw [region, List.length_take, Nat.min_eq_left tcp.optionsLen_le]

theorem region_append_payload (tcp : Headed) : tcp.region ++ tcp.payload = tcp.rest :=
  List.take_append_drop _ _

/-- A stamp of a segment: the time it was sent, and the time it echoes. -/
def stamp (tcp : Headed) : Option (UInt32 × UInt32) :=
  (tcp.options.find? fun x => isTs x.1 x.2).map fun x => (u32 (x.2.take 4), u32 (x.2.drop 4))

/-- The value of an option, if its first one is of the right length. -/
def value (tcp : Headed) (kind : UInt8) (length : ℕ) : Option Bytes :=
  (find tcp.options kind).filter (·.length = length)

/-- Two segments with the same header but for the checksum, and the same payload. -/
structure Alike (before after : Headed) : Prop where
  /-- Everything before the checksum. -/
  head : after.front.take 16 = before.front.take 16
  urgent : after.front.drop 18 = before.front.drop 18
  /-- They are of one length. -/
  length : after.rest.length = before.rest.length
  payload : after.payload = before.payload

theorem Alike.refl (tcp : Headed) : Alike tcp tcp := ⟨rfl, rfl, rfl, rfl⟩

theorem Alike.trans {tcp'' : Headed} (h : Alike tcp tcp') (h' : Alike tcp' tcp'') :
    Alike tcp tcp'' :=
  ⟨h'.head.trans h.head, h'.urgent.trans h.urgent, h'.length.trans h.length,
    h'.payload.trans h.payload⟩

theorem byte_of_take {k : ℕ} (h : b'.front.take k = b.front.take k) (i : Fin 20)
    (hi : (i : ℕ) < k) : b'.byte i = b.byte i := by
  have hget (l : Bytes) : l[(i : ℕ)]? = (l.take k)[(i : ℕ)]? := (List.getElem?_take_of_lt hi).symm
  rw [byte, byte, List.getD_eq_getElem?_getD, List.getD_eq_getElem?_getD, hget b'.front, h,
    ← hget b.front]

theorem Alike.dataOffset (h : Alike tcp tcp') : tcp'.dataOffset = tcp.dataOffset := by
  rw [Headed.dataOffset, Headed.dataOffset, byte_of_take h.head 12 (by decide)]

theorem Alike.length_bytes (h : Alike tcp tcp') : tcp'.bytes.length = tcp.bytes.length := by
  rw [Headed.length_bytes, Headed.length_bytes, h.length]

theorem Alike.complete (h : Alike tcp tcp') : tcp'.complete = tcp.complete := by
  rw [Headed.complete, Headed.complete, h.dataOffset, h.length_bytes]

/-- The options of a segment are replaced by as many bytes. -/
theorem alike_region (tcp : Headed) (region : Bytes) (hlen : region.length = tcp.optionsLen) :
    Alike tcp { tcp with rest := region ++ tcp.payload } ∧
      ({ tcp with rest := region ++ tcp.payload } : Headed).region = region := by
  have hrest := congrArg List.length tcp.region_append_payload
  rw [List.length_append, length_region] at hrest
  have hsame : ({ tcp with rest := region ++ tcp.payload } : Headed).optionsLen =
      tcp.optionsLen := by
    rw [optionsLen, optionsLen, Headed.length_bytes, Headed.length_bytes, List.length_append, hlen,
      hrest]
    rfl
  refine ⟨⟨rfl, rfl, ?_, ?_⟩, ?_⟩
  · rw [List.length_append, hlen, hrest]
  · rw [payload, hsame, ← hlen]
    exact List.drop_left' rfl
  · rw [Headed.region, hsame, ← hlen]
    exact List.take_left' rfl

section Checksums

theorem rest_withChecksum (tcp : Headed) (n : ℕ) : (tcp.withChecksum n).rest = tcp.rest := rfl

theorem take_withChecksum (tcp : Headed) (n : ℕ) :
    (tcp.withChecksum n).front.take 16 = tcp.front.take 16 := by
  have hfront := tcp.front_length
  exact take_patch (by omega) (Nat.le_refl 16)

theorem alike_withChecksum (tcp : Headed) (n : ℕ) :
    Alike tcp (tcp.withChecksum n) ∧ (tcp.withChecksum n).region = tcp.region := by
  have hfront := tcp.front_length
  have hbyte := byte_of_take (take_withChecksum tcp n) 12 (by decide)
  have hsame : (tcp.withChecksum n).optionsLen = tcp.optionsLen := by
    rw [optionsLen, optionsLen, dataOffset, dataOffset, hbyte, Headed.length_bytes,
      Headed.length_bytes, rest_withChecksum]
  refine ⟨⟨take_withChecksum tcp n, ?_, rfl, ?_⟩, ?_⟩
  · exact drop_patch (by rw [length_bytes16]; omega) (Nat.le_refl 18)
  · rw [payload, payload, hsame, rest_withChecksum]
  · rw [Headed.region, Headed.region, hsame, rest_withChecksum]

theorem alike_fill (tcp : Headed) (src dst : Bytes) :
    Alike tcp (tcp.fill src dst) ∧ (tcp.fill src dst).region = tcp.region := by
  rw [fill]
  split
  · exact alike_withChecksum tcp _
  · exact ⟨.refl tcp, rfl⟩

theorem pseudoHeader_le (src dst : Bytes) (hsrc : src.length = 4) (hdst : dst.length = 4)
    (n : ℕ) : pseudoHeader src dst n ≤ 65535 := by
  have hfold (l : Bytes) (hl : l.length = 4) : data l ≤ 65535 := by
    have hle := wordSum_le l
    rw [hl] at hle
    exact fold_le (by omega)
  have h₁ := hfold src hsrc
  have h₂ := hfold dst hdst
  have h₃ := hfold ([0, 6] ++ bytes16 n) rfl
  apply fold_le
  simp only [List.sum_cons, List.sum_nil]
  omega

/-- The checksum that is filled in is right. -/
theorem tcpSum_fill (hsrc : src.length = 4) (hdst : dst.length = 4)
    (hlen : tcp.bytes.length ≤ 65535) (h : tcp.complete = true) :
    tcpSum src dst (tcp.fill src dst).bytes = 65535 := by
  have hfront := tcp.front_length
  have hall := tcp.length_bytes
  have hbytes (m : ℕ) : (tcp.withChecksum m).bytes = patch tcp.bytes 16 (bytes16 m) :=
    (patch_append (by rw [length_bytes16]; omega)).symm
  have hsame (m : ℕ) : (patch tcp.bytes 16 (bytes16 m)).length = tcp.bytes.length :=
    length_patch (by rw [length_bytes16]; omega)
  have hle := wordSum_le (patch tcp.bytes 16 (bytes16 0))
  rw [hsame] at hle
  have hsum (m : ℕ) : tcpSum src dst (patch tcp.bytes 16 (bytes16 m)) =
      fold (pseudoHeader src dst tcp.bytes.length +
        fold (wordSum (patch tcp.bytes 16 (bytes16 m)))) := by
    rw [tcpSum, hsame, combine, data]
    simp only [List.sum_cons, List.sum_nil, Nat.add_zero]
  rw [fill, if_pos h, hbytes, hbytes, hsum, hsum, wordSum_patch (by omega) rfl (by omega)]
  exact fold_add_fold_complement (pseudoHeader_le src dst hsrc hdst _) (by omega)

end Checksums

section Timestamps

theorem length_moved (a c : UInt32) (body : Bytes) : (moved a c body).length = 8 := rfl

theorem take_moved (a c : UInt32) (body : Bytes) :
    u32 ((moved a c body).take 4) = u32 (body.take 4) + a := by
  rw [moved, List.take_left' (length_bytes32 _), u32_bytes32]

theorem drop_moved (a c : UInt32) (body : Bytes) :
    u32 ((moved a c body).drop 4) =
      if u32 (body.drop 4) = 0 then 0 else u32 (body.drop 4) + c := by
  rw [moved, List.drop_left' (length_bytes32 _), u32_bytes32]

/-- A moved option is a timestamp as well. -/
theorem isTs_moved {kind : UInt8} {body : Bytes} (a c : UInt32) (h : isTs kind body = true) :
    isTs kind (moved a c body) = true := by
  simp only [isTs, Bool.and_eq_true, decide_eq_true_eq] at h ⊢
  exact ⟨h.1, length_moved a c body⟩

theorem length_moved_of_isTs (a c : UInt32) (kind : UInt8) (body : Bytes)
    (h : isTs kind body = true) : (moved a c body).length = body.length := by
  simp only [isTs, Bool.and_eq_true, decide_eq_true_eq] at h
  rw [length_moved, h.2]

/-- A stamp that is moved. -/
def shifted (a c : UInt32) (x : UInt32 × UInt32) : UInt32 × UInt32 :=
  (x.1 + a, if x.2 = 0 then 0 else x.2 + c)

/-- A shift changes one option, and no more. -/
theorem shiftTimestamp_some {a c : UInt32} (h : shiftTimestamp tcp a c = some tcp') :
    Alike tcp tcp' ∧ Rewritten isTs (moved a c) tcp.region tcp'.region := by
  obtain ⟨region, hregion, rfl⟩ := Option.map_eq_some_iff.mp h
  have hone := rewrite_some (length_moved_of_isTs a c) hregion
  obtain ⟨halike, hsame⟩ := alike_region tcp region
    (by rw [hone.length, length_region])
  exact ⟨halike, by rwa [hsame]⟩

/-- There is nothing to shift exactly if there is no stamp. -/
theorem shiftTimestamp_eq_none_iff {a c : UInt32} :
    shiftTimestamp tcp a c = none ↔ tcp.stamp = none := by
  rw [shiftTimestamp, Option.map_eq_none_iff, rewrite_eq_none_iff, stamp, Option.map_eq_none_iff,
    List.find?_eq_none]
  simp only [Bool.not_eq_true]
  rfl

theorem shiftTimestamp_same {a c : UInt32} (h : shiftTimestamp tcp a c = some tcp')
    (hsame : ∀ x, tcp.stamp = some x → shifted a c x = x) : tcp' = tcp := by
  obtain ⟨region, hregion, rfl⟩ := Option.map_eq_some_iff.mp h
  have hone : region = tcp.region := by
    refine rewrite_same hregion fun kind body hfind => ?_
    have hts := List.find?_some hfind
    simp only [isTs, Bool.and_eq_true, decide_eq_true_eq] at hts
    have hstamp : tcp.stamp = some (u32 (body.take 4), u32 (body.drop 4)) := by
      rw [stamp, options, hfind]
      rfl
    obtain ⟨hval, hecr⟩ := Prod.ext_iff.mp (hsame _ hstamp)
    dsimp only [shifted] at hval hecr
    rw [moved, hval, hecr, bytes32_u32 (by rw [List.length_take, hts.2]; rfl),
      bytes32_u32 (by rw [List.length_drop, hts.2]), List.take_append_drop]
  ext1
  · rfl
  · dsimp only
    rw [hone, region_append_payload]

theorem alike_shift (tcp : Headed) (a c : UInt32) :
    Alike tcp ((shiftTimestamp tcp a c).getD tcp) := by
  cases h : shiftTimestamp tcp a c with
  | none => exact .refl tcp
  | some tcp' => exact (shiftTimestamp_some h).1

theorem stamp_shift (tcp : Headed) (a c : UInt32) :
    ((shiftTimestamp tcp a c).getD tcp).stamp = tcp.stamp.map (shifted a c) := by
  cases h : shiftTimestamp tcp a c with
  | none => rw [Option.getD_none, shiftTimestamp_eq_none_iff.mp h, Option.map_none]
  | some tcp' =>
    obtain ⟨kind, body, hwas, hnow⟩ := (shiftTimestamp_some h).2.find fun k body => isTs_moved a c
    rw [Option.getD_some, stamp, stamp, options, options, hwas, hnow, Option.map_some,
      Option.map_some, take_moved, drop_moved, Option.map_some]
    rfl

/-- What an option of another kind says stays. -/
theorem find_shift (tcp : Headed) (a c : UInt32) {kind : UInt8} (hkind : kind ≠ 8) :
    find ((shiftTimestamp tcp a c).getD tcp).options kind = find tcp.options kind := by
  cases h : shiftTimestamp tcp a c with
  | none => rfl
  | some tcp' =>
    obtain ⟨-, pre, k, body, post, -, hk, hwas, hnow⟩ := (shiftTimestamp_some h).2
    have hne : k ≠ kind := by
      simp only [isTs, Bool.and_eq_true, decide_eq_true_eq] at hk
      rw [hk.1]
      exact hkind.symm
    simp only [Option.getD_some, options, find, hwas, hnow, List.find?_append,
      List.find?_cons_of_neg (p := fun x : UInt8 × Bytes => decide (x.1 = kind))
        (a := (k, body)) (by simpa only [decide_eq_true_eq] using hne),
      List.find?_cons_of_neg (p := fun x : UInt8 × Bytes => decide (x.1 = kind))
        (a := (k, moved a c body)) (by simpa only [decide_eq_true_eq] using hne)]

/-- Of options that are no timestamps none is read as one. -/
theorem filter_find_none {opts : List (UInt8 × Bytes)} (h : ∀ x ∈ opts, isTs x.1 x.2 = false) :
    (find opts 8).filter (·.length = 8) = none := by
  cases hfind : opts.find? (·.1 = 8) with
  | none => rw [find, hfind]; rfl
  | some x =>
    have hkind := List.find?_some hfind
    have hno := h x (List.mem_of_find?_eq_some hfind)
    rw [isTs, of_decide_eq_true hkind, decide_eq_true rfl, Bool.true_and] at hno
    rw [find, hfind, Option.map_some, Option.filter_some, if_neg (Bool.eq_false_iff.mp hno)]

/-- And behind them the first one is, unless another of the kind is in front of it. -/
theorem filter_find_of_append {pre post : List (UInt8 × Bytes)} {body : Bytes}
    (h : ∀ x ∈ pre, isTs x.1 x.2 = false) (hlen : body.length = 8) :
    (find (pre ++ (8, body) :: post) 8).filter (·.length = 8) =
      if (pre.find? (·.1 = 8)).isSome then none else some body := by
  have hpre := filter_find_none h
  rw [find] at hpre ⊢
  rw [List.find?_append]
  cases hfind : pre.find? (·.1 = 8) with
  | none =>
    have hhead : ((8, body) :: post).find? (fun x : UInt8 × Bytes => decide (x.1 = 8)) =
        some (8, body) := List.find?_cons_of_pos (decide_eq_true rfl)
    rw [Option.none_or, hhead, Option.map_some, Option.filter_some, if_pos (decide_eq_true hlen)]
    rfl
  | some x =>
    rw [hfind] at hpre
    rw [Option.some_or, hpre]
    rfl

/-- The timestamp of a segment whose first one is of the right length. -/
theorem value_shift (tcp : Headed) (a c : UInt32) :
    ((shiftTimestamp tcp a c).getD tcp).value 8 8 = (tcp.value 8 8).map (moved a c) := by
  cases h : shiftTimestamp tcp a c with
  | none =>
    have hstamp := shiftTimestamp_eq_none_iff.mp h
    rw [stamp, Option.map_eq_none_iff, List.find?_eq_none] at hstamp
    have hnone := filter_find_none fun x hx => Bool.eq_false_iff.mpr (hstamp x hx)
    rw [Option.getD_none, value, hnone]
    rfl
  | some tcp' =>
    obtain ⟨-, pre, k, body, post, hpre, hk, hwas, hnow⟩ := (shiftTimestamp_some h).2
    simp only [isTs, Bool.and_eq_true, decide_eq_true_eq] at hk
    obtain ⟨rfl, hlen⟩ := hk
    rw [Option.getD_some, value, value, options, options, hwas, hnow,
      filter_find_of_append hpre hlen, filter_find_of_append hpre (length_moved a c body)]
    split <;> rfl

/-- The padding in front of a lone timestamp says what the zeros behind it have said. -/
theorem alike_nopAlign (tcp : Headed) :
    Alike tcp (nopAlign tcp) ∧ (nopAlign tcp).options = tcp.options := by
  rw [nopAlign]
  split
  · rename_i hlone
    obtain ⟨hoff, hlong, hkind, hzeros⟩ := hlone
    have hall := tcp.length_bytes
    have hlen : tcp.optionsLen = 12 := by
      rw [optionsLen, hoff]
      omega
    obtain ⟨body, hbody⟩ : ∃ body, body = (tcp.rest.drop 2).take 8 := ⟨_, rfl⟩
    have hbodyLen : body.length = 8 := by
      rw [hbody, List.length_take, List.length_drop]
      omega
    have hdrop : tcp.rest.drop 10 = [0, 0] ++ tcp.rest.drop 12 := by
      rw [← hzeros, show 12 = 10 + 2 from rfl, ← List.drop_drop, List.take_append_drop]
    have htail : tcp.rest.drop 2 = body ++ tcp.rest.drop 10 := by
      rw [hbody, show 10 = 2 + 8 from rfl, ← List.drop_drop, List.take_append_drop]
    have hrest : tcp.rest = [8, 10] ++ body ++ [0, 0] ++ tcp.payload := by
      rw [payload, hlen, List.append_assoc ([8, 10] ++ body), ← hdrop, List.append_assoc, ← htail,
        ← hkind, List.take_append_drop]
    have hregion : tcp.region = 8 :: 10 :: (body ++ [0, 0]) := by
      rw [region, hlen, hrest]
      exact List.take_left' (by simp only [List.length_append, hbodyLen, List.length_cons,
        List.length_nil])
    have hfirst : tcp.rest.take 10 = [8, 10] ++ body := by
      rw [hrest, List.append_assoc]
      exact List.take_left' (by rw [List.length_append, hbodyLen]; rfl)
    have hnew : patch (patch tcp.rest 2 (tcp.rest.take 10)) 0 [1, 1] =
        ([1, 1, 8, 10] ++ body) ++ tcp.payload := by
      rw [hfirst, patch, patch, List.length_append, hbodyLen, payload, hlen, hkind]
      rfl
    rw [hnew]
    obtain ⟨halike, hsame⟩ := alike_region tcp ([1, 1, 8, 10] ++ body)
      (by rw [hlen, List.length_append, hbodyLen]; rfl)
    refine ⟨halike, ?_⟩
    rw [options, options, hsame, hregion,
      entries_option (by decide) (by decide) (by rw [hbodyLen]; rfl)]
    have hread : entries (8 :: 10 :: (body ++ [])) = (8, body) :: entries [] :=
      entries_option (by decide) (by decide) (by rw [hbodyLen]; rfl)
    rw [List.append_nil] at hread
    exact hread
  · exact ⟨.refl tcp, rfl⟩

end Timestamps

end Headed

end FuryBrowser.SynShape
