import FuryBrowser.SynLayout

/-!
# Packets that a shaper rewrites

A packet is its header and a segment. The header gets a lifetime, a number and a checksum and says
how long the packet is; the segment is what the rewriting of segments makes of it. For that the
fields that are written have to lie in the header, so it has twelve bytes at least.
-/

namespace FuryBrowser.SynShape

open AgentDisk ByteFields InternetChecksum OptionList

section Looks

/-- What a segment is made to look like: the system, and how far its timestamps are moved. -/
structure Look where
  os : Os
  offset : Option UInt32
  deriving DecidableEq, Repr

/-- The look of a port. -/
def Shaper.look (s : Shaper) (port : ℕ) : Look := ⟨s.osAt port, s.movedBy port⟩

/-- How far the timestamps are moved. -/
def Look.distance (look : Look) : UInt32 := look.offset.getD 0

/-- The segment as the system would send it. -/
def Look.reshaped (look : Look) (tcp : Headed) : Headed :=
  if tcp.isSyn then rebuildSyn tcp look.os.shape
  else if look.os.timestamps then nopAlign tcp
  else tcp

/-- And with its timestamp moved. -/
def Look.shifted (look : Look) (tcp : Headed) : Headed :=
  match look.offset with
  | none => look.reshaped tcp
  | some offset => (shiftTimestamp (look.reshaped tcp) offset 0).getD (look.reshaped tcp)

/-- And with its checksum. -/
def Look.render (look : Look) (src dst : Bytes) (tcp : Headed) : Headed :=
  (look.shifted tcp).fill src dst

variable {look : Look} {tcp : Headed} {src dst : Bytes}

/-- A segment that opens nothing stays as it is but for its timestamp and its checksum. -/
structure SegmentKept (look : Look) (before after : Headed) : Prop where
  /-- All its fields and its payload stay, and so does its length. -/
  alike : Headed.Alike before after
  /-- Its timestamp is moved, and what it echoes is not. -/
  stamp : after.stamp = before.stamp.map fun x => (x.1 + look.distance, x.2)

/-- A SYN keeps what its options say. -/
structure SynKept (look : Look) (before after : Headed) : Prop where
  /-- It is a header of at most 60 bytes. -/
  short : after.bytes.length ≤ 60
  words : after.bytes.length % 4 = 0
  offset : after.dataOffset = after.bytes.length
  /-- The ports and the numbers stay. -/
  numbers : after.front.take 12 = before.front.take 12
  flags : after.byte 13 = before.byte 13
  /-- The urgent pointer stays. -/
  urgent : after.front.drop 18 = before.front.drop 18
  /-- It has the segment size it had. -/
  mss : after.value 2 2 = before.value 2 2
  /-- It has the window scale it had. -/
  ws : after.value 3 1 = before.value 3 1
  /-- It permits what it permitted. -/
  sok : (find after.options 4).isSome = (find before.options 4).isSome
  /-- It has the timestamp it had, moved. -/
  ts : after.value 8 8 = (before.value 8 8).map (moved look.distance 0)
  /-- It never has a larger window. -/
  window : after.word 14 15 ≤ before.word 14 15

/-- A SYN that fits a system: what cannot be laid out is not in it. -/
structure SynFits (os : Os) (tcp : Headed) : Prop where
  /-- The window scale is one byte. -/
  scale : ScaleFits tcp.options
  /-- There is a timestamp only where the system has one. -/
  ts : os.timestamps = true ∨ tcp.value 8 8 = none

theorem shifted_zero (x : UInt32 × UInt32) (a : UInt32) :
    Headed.shifted a 0 x = (x.1 + a, x.2) := by
  rw [Headed.shifted]
  split
  · rename_i hzero
    rw [hzero]
  · rw [UInt32.add_zero]

/-- The timestamp of what is shifted. -/
theorem stamp_look (look : Look) (tcp : Headed) : (look.shifted tcp).stamp =
    (look.reshaped tcp).stamp.map fun x => (x.1 + look.distance, x.2) := by
  rw [Look.shifted, Look.distance]
  cases look.offset with
  | none =>
    simp only [Option.getD_none, UInt32.add_zero]
    exact Option.map_id'.symm
  | some offset =>
    rw [Headed.stamp_shift, Option.getD_some]
    exact congrArg (Option.map · _) (funext fun x => shifted_zero x offset)

theorem alike_look (look : Look) (tcp : Headed) :
    Headed.Alike (look.reshaped tcp) (look.shifted tcp) := by
  rw [Look.shifted]
  cases look.offset with
  | none => exact .refl _
  | some offset => exact Headed.alike_shift _ offset 0

/-- Filling in a checksum leaves what is read. -/
theorem options_fill (tcp : Headed) (src dst : Bytes) :
    (tcp.fill src dst).options = tcp.options := by
  rw [Headed.options, Headed.options, (Headed.alike_fill tcp src dst).2]

theorem stamp_fill (tcp : Headed) (src dst : Bytes) :
    (tcp.fill src dst).stamp = tcp.stamp := by
  rw [Headed.stamp, Headed.stamp, options_fill]

theorem segmentKept_render (hsyn : tcp.isSyn = false) (look : Look) (src dst : Bytes) :
    SegmentKept look tcp (look.render src dst tcp) := by
  have hreshaped : Headed.Alike tcp (look.reshaped tcp) ∧
      (look.reshaped tcp).options = tcp.options := by
    rw [Look.reshaped, if_neg (Bool.eq_false_iff.mp hsyn)]
    split
    · exact Headed.alike_nopAlign tcp
    · exact ⟨.refl tcp, rfl⟩
  have hsame : (look.reshaped tcp).stamp = tcp.stamp := by
    rw [Headed.stamp, Headed.stamp, hreshaped.2]
  refine ⟨?_, ?_⟩
  · exact (hreshaped.1.trans (alike_look look tcp)).trans (Headed.alike_fill _ src dst).1
  · rw [Look.render, stamp_fill, stamp_look, hsame]

/-- What an option of another kind says in the end. -/
theorem find_render (hsyn : tcp.isSyn = true) {kind : UInt8} (hkind : kind ≠ 8) :
    find (look.render src dst tcp).options kind =
      find (rebuildSyn tcp look.os.shape).options kind := by
  rw [Look.render, options_fill, Look.shifted, Look.reshaped, if_pos hsyn]
  cases look.offset with
  | none => rfl
  | some offset => exact Headed.find_shift _ offset 0 hkind

theorem moved_zero {body : Bytes} (h : body.length = 8) : moved 0 0 body = body := by
  have htake : (body.take 4).length = 4 := by rw [List.length_take, h]; rfl
  have hdrop : (body.drop 4).length = 4 := by rw [List.length_drop, h]
  have hecr : (if u32 (body.drop 4) = 0 then 0 else u32 (body.drop 4) + 0) = u32 (body.drop 4) := by
    split
    · rename_i hzero
      exact hzero.symm
    · exact UInt32.add_zero _
  rw [moved, hecr, UInt32.add_zero, bytes32_u32 htake, bytes32_u32 hdrop, List.take_append_drop]

/-- The timestamp of a SYN that fits its system. -/
theorem find_ts_rebuildSyn {os : Os} (h : SynFits os tcp) :
    find (rebuildSyn tcp os.shape).options 8 = tcp.value 8 8 := by
  by_cases hmem : Opt.ts ∈ os.shape.layout
  · rw [show (8 : UInt8) = Opt.ts.kind from rfl, find_rebuildSyn h.scale hmem]
    rfl
  · have hnone := find_pieces tcp.options .ts os.shape.layout
    rw [if_neg hmem] at hnone
    have hts : tcp.value 8 8 = none :=
      h.ts.resolve_left fun htrue => hmem (List.contains_iff_mem.mp htrue)
    rw [hts, find, options_rebuildSyn h.scale, laidPieces, show (8 : UInt8) = Opt.ts.kind from rfl,
      hnone]
    rfl

theorem ts_rebuildSyn {os : Os} (h : SynFits os tcp) :
    (rebuildSyn tcp os.shape).value 8 8 = tcp.value 8 8 := by
  rw [Headed.value, find_ts_rebuildSyn h, Headed.value, Option.filter_filter]
  simp only [Bool.and_self]

/-- Without an option of the kind there is no stamp. -/
theorem stamp_of_find_none (h : find tcp.options 8 = none) : tcp.stamp = none := by
  rw [find, Option.map_eq_none_iff, List.find?_eq_none] at h
  rw [Headed.stamp, Option.map_eq_none_iff, List.find?_eq_none]
  intro x hx hts
  simp only [isTs, Bool.and_eq_true, decide_eq_true_eq] at hts
  exact h x hx (decide_eq_true hts.1)

/-- And a first one of the right length is the stamp. -/
theorem stamp_of_value {body : Bytes} (h : tcp.value 8 8 = some body) :
    tcp.stamp = some (u32 (body.take 4), u32 (body.drop 4)) := by
  obtain ⟨hfind, hlen⟩ := Option.filter_eq_some_iff.mp h
  obtain ⟨⟨kind, body'⟩, hx, rfl⟩ := Option.map_eq_some_iff.mp hfind
  obtain ⟨hkind, pre, post, hopts, hpre⟩ := List.find?_eq_some_iff_append.mp hx
  have hnone : pre.find? (fun x => isTs x.1 x.2) = none := by
    rw [List.find?_eq_none]
    intro y hy hts
    simp only [isTs, Bool.and_eq_true, decide_eq_true_eq] at hts
    exact absurd (decide_eq_true hts.1) (by simpa using hpre y hy)
  have hts : isTs kind body' = true := by
    rw [isTs, hlen, Bool.and_true]
    exact hkind
  rw [Headed.stamp, hopts, List.find?_append, hnone, Option.none_or,
    List.find?_cons_of_pos (by exact hts)]
  rfl

/-- A SYN that fits its system keeps everything. -/
theorem synKept_render (hsyn : tcp.isSyn = true) (h : SynFits look.os tcp) (src dst : Bytes) :
    SynKept look tcp (look.render src dst tcp) := by
  have hws := h.scale
  have hreshaped : look.reshaped tcp = rebuildSyn tcp look.os.shape := if_pos hsyn
  have halike : Headed.Alike (rebuildSyn tcp look.os.shape) (look.render src dst tcp) := by
    rw [← hreshaped]
    exact (alike_look look tcp).trans (Headed.alike_fill _ src dst).1
  obtain ⟨hbefore, -, hflags, -, hurgent⟩ := getElem?_synFront hws look.os
  have hwords := (length_pad (look.os.shape.layout.foldl (place tcp.options) tcp.front)).1
  rw [← laid] at hwords
  have hnumbers : (rebuildSyn tcp look.os.shape).front.take 12 = tcp.front.take 12 := by
    apply List.ext_getElem?
    intro i
    by_cases hi : i < 12
    · rw [List.getElem?_take_of_lt hi, List.getElem?_take_of_lt hi]
      exact hbefore i hi
    · rw [List.getElem?_eq_none (by rw [List.length_take]; omega),
        List.getElem?_eq_none (by rw [List.length_take]; omega)]
  have hfind {opt : Opt} (hmem : opt ∈ look.os.shape.layout) (hkind : opt.kind ≠ 8) :
      find (look.render src dst tcp).options opt.kind = opt.content tcp.options := by
    rw [find_render hsyn hkind, find_rebuildSyn hws hmem]
  have hmss : Opt.mss ∈ look.os.shape.layout := by cases look.os <;> decide
  have hscale : Opt.ws ∈ look.os.shape.layout := by cases look.os <;> decide
  have hsok : Opt.sok ∈ look.os.shape.layout := by cases look.os <;> decide
  refine ⟨?_, ?_, ?_, ?_, ?_, ?_, ?_, ?_, ?_, ?_, ?_⟩
  · rw [halike.length_bytes, rebuildSyn_bytes_length]
    exact (laid_eq hws look.os).2
  · rw [halike.length_bytes, rebuildSyn_bytes_length, hwords]
  · rw [halike.dataOffset, halike.length_bytes, rebuildSyn_bytes_length,
      dataOffset_rebuildSyn hws]
  · have htake (l : Bytes) : l.take 12 = (l.take 16).take 12 := by rw [List.take_take]; rfl
    rw [htake, halike.head, ← htake, hnumbers]
  · rw [Headed.byte_of_take halike.head 13 (by decide), Headed.byte, Headed.byte,
      List.getD_eq_getElem?_getD, List.getD_eq_getElem?_getD]
    exact congrArg (·.getD 0) hflags
  · rw [halike.urgent]
    exact hurgent
  · rw [Headed.value, show (2 : UInt8) = Opt.mss.kind from rfl, hfind hmss (by decide), Opt.content,
      Option.filter_filter]
    simp only [Bool.and_self]
    rfl
  · rw [Headed.value, show (3 : UInt8) = Opt.ws.kind from rfl, hfind hscale (by decide)]
    rfl
  · rw [show (4 : UInt8) = Opt.sok.kind from rfl, hfind hsok (by decide), Opt.content,
      Option.isSome_map]
    rfl
  · rw [Look.render, Headed.value, options_fill, ← Headed.value, Look.shifted, hreshaped,
      Look.distance, ← ts_rebuildSyn h]
    cases look.offset with
    | none =>
      cases hvalue : (rebuildSyn tcp look.os.shape).value 8 8 with
      | none => rfl
      | some body =>
        have hlen := of_decide_eq_true (Option.filter_eq_some_iff.mp hvalue).2
        rw [Option.map_some, Option.getD_none, moved_zero hlen]
    | some offset => exact Headed.value_shift _ offset 0
  · have hsame := congrArg₂ ByteFields.word
      (Headed.byte_of_take halike.head 14 (by decide))
      (Headed.byte_of_take halike.head 15 (by decide))
    rw [← Headed.word, ← Headed.word, word_rebuildSyn hws] at hsame
    rw [hsame]
    exact synWindow_le tcp look.os.shape

/-- What goes out is stamped with the time of what came in, moved. -/
theorem stamp_render (h : tcp.isSyn = true → SynFits look.os tcp) {v e w e' : UInt32}
    (hwas : tcp.stamp = some (v, e)) (hnow : (look.render src dst tcp).stamp = some (w, e')) :
    w = v + look.distance := by
  cases hsyn : tcp.isSyn with
  | false =>
    have hkept := (segmentKept_render hsyn look src dst).stamp
    rw [hwas, hnow] at hkept
    cases hkept
    rfl
  | true =>
    rw [Look.render, stamp_fill, stamp_look, Look.reshaped, if_pos hsyn] at hnow
    obtain ⟨x, hx, hmoved⟩ := Option.map_eq_some_iff.mp hnow
    have hsame : (rebuildSyn tcp look.os.shape).stamp = tcp.stamp := by
      have hfind := find_ts_rebuildSyn (h hsyn)
      have hts := ts_rebuildSyn (h hsyn)
      cases hvalue : tcp.value 8 8 with
      | none =>
        rw [hvalue] at hfind
        cases (stamp_of_find_none hfind).symm.trans hx
      | some body =>
        rw [hvalue] at hts
        rw [stamp_of_value hts, stamp_of_value hvalue]
    rw [hsame, hwas] at hx
    cases hx
    cases hmoved
    rfl

end Looks

section Headers

variable {head rest l : Bytes} {i : ℕ} {bs : Bytes} {ip : Ipv4Packet} {tcp : Headed}

theorem write_append (h : i + bs.length ≤ head.length) :
    write (head ++ rest) i bs = some (patch head i bs ++ rest) := by
  rw [write, if_pos (by rw [List.length_append]; omega), patch_append h]

/-- A header that has been filled in. -/
structure Filled (before after : Bytes) : Prop where
  /-- It is as long as it was. -/
  length : after.length = before.length
  sum : data after = 65535
  /-- What it says of the packet, and the addresses, stay. -/
  kept : ∀ i, i < 4 ∨ i = 9 ∨ 12 ≤ i → after[i]? = before[i]?

theorem fillHeader_append (rest : Bytes) (hlow : 12 ≤ head.length) (hhigh : head.length ≤ 60)
    (hself : headerLen (head.headD 0) = head.length) (ttl : UInt8) (ident : UInt16) :
    ∃ head', fillHeader (head ++ rest) ttl ident = some (head' ++ rest) ∧ Filled head head' := by
  obtain ⟨first, hfirst⟩ : ∃ first, first = patch head 8 [ttl] := ⟨_, rfl⟩
  obtain ⟨second, hsecond⟩ : ∃ second, second = patch first 4 (bytes16 ident.toNat) := ⟨_, rfl⟩
  have hlen₁ : first.length = head.length := by
    rw [hfirst, length_patch (by rw [List.length_singleton]; omega)]
  have hlen₂ : second.length = head.length := by
    rw [hsecond, length_patch (by rw [length_bytes16]; omega), hlen₁]
  have hlen (n : ℕ) : (patch second 10 (bytes16 n)).length = head.length := by
    rw [length_patch (by rw [length_bytes16]; omega), hlen₂]
  have hkept (n i : ℕ) (hi : i < 4 ∨ i = 9 ∨ 12 ≤ i) :
      (patch second 10 (bytes16 n))[i]? = head[i]? := by
    have hout : (patch second 10 (bytes16 n))[i]? = second[i]? := by
      by_cases hlt : i < 10
      · exact getElem?_patch_before (by omega) hlt
      · exact getElem?_patch_behind (by rw [length_bytes16]; omega) (by rw [length_bytes16]; omega)
    have hin : second[i]? = first[i]? := by
      rw [hsecond]
      by_cases hlt : i < 4
      · exact getElem?_patch_before (by omega) hlt
      · exact getElem?_patch_behind (by rw [length_bytes16]; omega) (by rw [length_bytes16]; omega)
    have hold : first[i]? = head[i]? := by
      rw [hfirst]
      by_cases hlt : i < 8
      · exact getElem?_patch_before (by omega) hlt
      · exact getElem?_patch_behind (by rw [List.length_singleton]; omega)
          (by rw [List.length_singleton]; omega)
    rw [hout, hin, hold]
  have hhead : (patch second 10 (bytes16 0) ++ rest).head? = some (head.headD 0) := by
    have hzero := hkept 0 0 (.inl (by decide))
    rw [List.head?_eq_getElem?, List.getElem?_append_left (by rw [hlen]; omega), hzero]
    cases head with
    | nil => exact absurd hlow (by decide)
    | cons b tail => rfl
  obtain ⟨c, hc⟩ : ∃ c, c = 65535 - data (patch second 10 (bytes16 0)) := ⟨_, rfl⟩
  have hwrite : write (patch second 10 (bytes16 0) ++ rest) 10 (bytes16 c) =
      some (patch (patch second 10 (bytes16 0)) 10 (bytes16 c) ++ rest) :=
    write_append (by rw [hlen, length_bytes16]; omega)
  have htwice : patch (patch second 10 (bytes16 0)) 10 (bytes16 c) =
      patch second 10 (bytes16 c) := patch_patch (by rw [length_bytes16]; omega) rfl
  refine ⟨patch second 10 (bytes16 c), ?_, hlen c, ?_, hkept c⟩
  · rw [fillHeader, write_append (by rw [List.length_singleton]; omega), Option.bind_some, ← hfirst,
      write_append (by rw [length_bytes16]; omega), Option.bind_some, ← hsecond, fillIp,
      write_append (by rw [length_bytes16]; omega), Option.bind_some, hhead, Option.bind_some,
      hself,
      if_neg (by rw [List.length_append, hlen]; omega), List.take_left' (hlen 0), ← hc, hwrite,
      htwice]
  · have hle := wordSum_le (patch second 10 (bytes16 0))
    rw [hlen] at hle
    rw [data, wordSum_patch (by omega) rfl (by omega), hc, data]
    exact fold_add_complement (by omega)

/-- A buffer that says of itself what is right. -/
theorem newChecked_of (hlen : 20 ≤ l.length)
    (hhead : headerLen (l.getD 0 0) ≤ ByteFields.word (l.getD 2 0) (l.getD 3 0))
    (htotal : ByteFields.word (l.getD 2 0) (l.getD 3 0) ≤ l.length) :
    ∃ ip, Ipv4Packet.newChecked l = some ip ∧ ip.bytes = l := by
  cases h : headed l with
  | none =>
    rw [headed, dif_pos hlen] at h
    cases h
  | some b =>
    have hbytes := Headed.bytes_of_headed h
    have hbyte (i : Fin 20) : b.byte i = l.getD i 0 := by rw [Headed.byte_eq_getD, hbytes]
    have hword : b.word 2 3 = ByteFields.word (l.getD 2 0) (l.getD 3 0) := by
      rw [Headed.word, hbyte, hbyte]
      rfl
    have hfirst : b.byte 0 = l.getD 0 0 := hbyte 0
    have hheader : headerLen (b.byte 0) ≤ b.word 2 3 := by rwa [hfirst, hword]
    have hwhole : b.word 2 3 ≤ b.bytes.length := by rwa [hword, hbytes]
    refine ⟨⟨b, hheader, hwhole⟩, ?_, hbytes⟩
    rw [Ipv4Packet.newChecked, h, Option.bind_some, dif_pos ⟨hheader, hwhole⟩]

theorem bytes_of_newChecked (h : Ipv4Packet.newChecked l = some ip) : ip.bytes = l := by
  obtain ⟨b, hb, hip⟩ := Option.bind_eq_some_iff.mp h
  split at hip
  · cases hip
    exact Headed.bytes_of_headed hb
  · cases hip

theorem headerLen_le (ip : Ipv4Packet) : ip.headerLen ≤ 60 := by
  have hmod := Nat.mod_lt (ip.byte 0).toNat (by decide : 0 < 16)
  rw [Ipv4Packet.headerLen, headerLen]
  omega

theorem totalLen_le (ip : Ipv4Packet) : ip.totalLen ≤ ip.bytes.length := ip.total_le

theorem headerLen_le_totalLen (ip : Ipv4Packet) : ip.headerLen ≤ ip.totalLen := ip.header_le

theorem headerLen_le_length (ip : Ipv4Packet) : ip.headerLen ≤ ip.bytes.length :=
  Nat.le_trans (headerLen_le_totalLen ip) (totalLen_le ip)

theorem truncated_eq (ip : Ipv4Packet) : ip.truncated = ip.bytes.take ip.totalLen := by
  rw [Ipv4Packet.truncated, Nat.min_eq_left (totalLen_le ip)]

theorem length_truncated (ip : Ipv4Packet) : ip.truncated.length = ip.totalLen := by
  rw [truncated_eq, List.length_take, Nat.min_eq_left (totalLen_le ip)]

/-- A packet is its header and its segment. -/
theorem truncated_of_segment (h : ip.segment = some tcp) : ip.isTcp = true ∧
    ip.truncated = ip.bytes.take ip.headerLen ++ tcp.bytes := by
  rw [Ipv4Packet.segment] at h
  split at h
  · rename_i htcp
    have hbytes := Headed.bytes_of_headed h
    have hle := headerLen_le_totalLen ip
    refine ⟨(Bool.and_eq_true_iff.mp htcp).1, ?_⟩
    have htake : ip.bytes.take ip.headerLen = ip.truncated.take ip.headerLen := by
      rw [truncated_eq, List.take_take, Nat.min_eq_left hle]
    rw [hbytes, htake, List.take_append_drop]
  · cases h

theorem segment_of (head : Bytes) (htcp : ip.isTcp = true) (hlen : head.length = ip.headerLen)
    (h : ip.truncated = head ++ tcp.bytes) : ip.segment = some tcp := by
  have htotal := congrArg List.length h
  have hmin := Nat.min_eq_left (totalLen_le ip)
  rw [length_truncated, List.length_append, Headed.length_bytes] at htotal
  have hlong : ip.headerLen + 20 ≤ min ip.totalLen ip.bytes.length := by
    rw [hmin]
    omega
  rw [Ipv4Packet.segment, if_pos (by rw [htcp, Bool.true_and, decide_eq_true hlong]), h,
    List.drop_left' hlen, Headed.headed_bytes]

/-- A packet with the addresses of another one. -/
structure Like (ip ip' : Ipv4Packet) : Prop where
  headerLen : ip'.headerLen = ip.headerLen
  isTcp : ip'.isTcp = ip.isTcp
  srcAddr : ip'.srcAddr = ip.srcAddr
  dstAddr : ip'.dstAddr = ip.dstAddr

/-- A buffer with these bytes in their places is such a packet. -/
theorem like_of {n : ℕ} (ip : Ipv4Packet) (hlen : 20 ≤ l.length) (hfirst : l[0]? = ip.bytes[0]?)
    (hproto : l[9]? = ip.bytes[9]?) (haddr : ∀ i, 12 ≤ i → i < 20 → l[i]? = ip.bytes[i]?)
    (hword : ByteFields.word (l.getD 2 0) (l.getD 3 0) = n) (hge : ip.headerLen ≤ n)
    (hle : n ≤ l.length) : ∃ ip', Ipv4Packet.newChecked l = some ip' ∧ ip'.bytes = l ∧
      ip'.totalLen = n ∧ Like ip ip' := by
  have hbyte (i : Fin 20) : ip.byte i = ip.bytes.getD i 0 := Headed.byte_eq_getD _ i
  have hzero : headerLen (l.getD 0 0) = ip.headerLen := by
    rw [Ipv4Packet.headerLen, hbyte, List.getD_eq_getElem?_getD, hfirst]
    rfl
  obtain ⟨ip', hchecked, hbytes⟩ := newChecked_of hlen (by rw [hzero, hword]; exact hge)
    (by rw [hword]; exact hle)
  have hbyte' (i : Fin 20) : ip'.byte i = l.getD i 0 := by rw [Headed.byte_eq_getD, hbytes]
  have hfour (k : ℕ) (hlow : 12 ≤ k) (hhigh : k + 4 ≤ 20) :
      (l.drop k).take 4 = (ip.bytes.drop k).take 4 := by
    apply List.ext_getElem?
    intro i
    by_cases hi : i < 4
    · rw [List.getElem?_take_of_lt hi, List.getElem?_take_of_lt hi, List.getElem?_drop,
        List.getElem?_drop, haddr (k + i) (by omega) (by omega)]
    · rw [List.getElem?_eq_none (by rw [List.length_take]; omega),
        List.getElem?_eq_none (by rw [List.length_take]; omega)]
  refine ⟨ip', hchecked, hbytes, ?_, ?_, ?_, ?_, ?_⟩
  · rw [Ipv4Packet.totalLen, Headed.word, hbyte', hbyte']
    exact hword
  · rw [Ipv4Packet.headerLen, hbyte']
    exact hzero
  · rw [Ipv4Packet.isTcp, Ipv4Packet.isTcp, hbyte', hbyte, List.getD_eq_getElem?_getD,
      List.getD_eq_getElem?_getD]
    exact congrArg (fun b : Option UInt8 => decide (b.getD 0 = 6)) hproto
  · rw [Ipv4Packet.srcAddr, Ipv4Packet.srcAddr, hbytes]
    exact hfour 12 (Nat.le_refl 12) (by decide)
  · rw [Ipv4Packet.dstAddr, Ipv4Packet.dstAddr, hbytes]
    exact hfour 16 (by decide) (Nat.le_refl 20)

end Headers

section Outgoing

variable {s : Shaper} {d : Draws} {p : Bytes} {ip : Ipv4Packet} {tcp seg : Headed}

/-- A packet that goes out for another one. -/
structure Outgoing (ip : Ipv4Packet) (seg : Headed) (after : Bytes) : Prop where
  /-- It is a packet with the same addresses and the segment. -/
  packet : ∃ ip', Ipv4Packet.newChecked after = some ip' ∧ ip'.segment = some seg ∧ Like ip ip' ∧
    ip'.totalLen = after.length
  /-- The checksum of its header is right. -/
  sum : data (after.take ip.headerLen) = 65535

/-- A header that is filled in, in front of a segment with the ports and numbers it had. -/
theorem outgoing_of {head head' : Bytes} (hseg : ip.segment = some tcp) (hlow : 12 ≤ ip.headerLen)
    (hhead : head.length = ip.headerLen) (hfilled : Filled head head')
    (hkept : ∀ i, i < 2 ∨ 4 ≤ i → head[i]? = (ip.bytes.take ip.headerLen)[i]?)
    (hword : ByteFields.word (head.getD 2 0) (head.getD 3 0) = ip.headerLen + seg.bytes.length)
    (hfront : seg.front.take 12 = tcp.front.take 12) : Outgoing ip seg (head' ++ seg.bytes) := by
  obtain ⟨htcp, htruncated⟩ := truncated_of_segment hseg
  have hlen' := hfilled.length.trans hhead
  have hsegment := seg.length_bytes
  have hall : (head' ++ seg.bytes).length = ip.headerLen + seg.bytes.length := by
    rw [List.length_append, hlen']
  have hin (i : ℕ) (hi : i < ip.headerLen) : (head' ++ seg.bytes)[i]? = head'[i]? :=
    List.getElem?_append_left (by omega)
  have hheader (i : ℕ) (hi : i < ip.headerLen) (hplace : i = 0 ∨ i = 9 ∨ 12 ≤ i) :
      (head' ++ seg.bytes)[i]? = ip.bytes[i]? := by
    rw [hin i hi, hfilled.kept i (by omega), hkept i (by omega), List.getElem?_take_of_lt hi]
  have haddr (i : ℕ) (hge : 12 ≤ i) (hlt : i < 20) : (head' ++ seg.bytes)[i]? = ip.bytes[i]? := by
    by_cases hi : i < ip.headerLen
    · exact hheader i hi (.inr (.inr hge))
    · have htotal : i < ip.totalLen := by
        have hlong := congrArg List.length htruncated
        rw [length_truncated, List.length_append, List.length_take, tcp.length_bytes] at hlong
        have hle := headerLen_le_length ip
        omega
      have hwas : ip.bytes[i]? = tcp.front[i - ip.headerLen]? := by
        have hle := headerLen_le_length ip
        have htake : (ip.bytes.take ip.headerLen).length = ip.headerLen := by
          rw [List.length_take, Nat.min_eq_left hle]
        rw [← List.getElem?_take_of_lt htotal, ← truncated_eq, htruncated,
          List.getElem?_append_right (by omega), htake, Headed.bytes,
          List.getElem?_append_left (by rw [tcp.front_length]; omega)]
      have hnow : (head' ++ seg.bytes)[i]? = seg.front[i - ip.headerLen]? := by
        rw [List.getElem?_append_right (by omega), hlen', Headed.bytes,
          List.getElem?_append_left (by rw [seg.front_length]; omega)]
      have hsmall : i - ip.headerLen < 12 := by omega
      rw [hnow, hwas, ← List.getElem?_take_of_lt hsmall, hfront, List.getElem?_take_of_lt hsmall]
  have htotal : ByteFields.word ((head' ++ seg.bytes).getD 2 0) ((head' ++ seg.bytes).getD 3 0) =
      (head' ++ seg.bytes).length := by
    rw [List.getD_eq_getElem?_getD, List.getD_eq_getElem?_getD, hin 2 (by omega), hin 3 (by omega),
      hfilled.kept 2 (by omega), hfilled.kept 3 (by omega), hall, ← hword,
      List.getD_eq_getElem?_getD, List.getD_eq_getElem?_getD]
  obtain ⟨ip', hchecked, hbytes, htotalLen, hlike⟩ := like_of ip (by omega)
    (hheader 0 (by omega) (.inl rfl)) (hheader 9 (by omega) (.inr (.inl rfl))) haddr htotal
    (by omega) (Nat.le_refl _)
  refine ⟨⟨ip', hchecked, segment_of head' ?_ ?_ ?_, hlike, htotalLen⟩, ?_⟩
  · rw [hlike.isTcp, htcp]
  · rw [hlike.headerLen, hlen']
  · rw [truncated_eq, hbytes, htotalLen, List.take_length]
  · rw [List.take_left' hlen', hfilled.sum]

/-- The header of a packet says how long it is itself. -/
theorem headerLen_take (hlow : 12 ≤ ip.headerLen) :
    (ip.bytes.take ip.headerLen).length = ip.headerLen ∧
      headerLen ((ip.bytes.take ip.headerLen).headD 0) = ip.headerLen := by
  have hle := headerLen_le_length ip
  refine ⟨by rw [List.length_take, Nat.min_eq_left hle], ?_⟩
  rw [List.headD_eq_head?_getD, List.head?_eq_getElem?, List.getElem?_take_of_lt (by omega)]
  have hbyte := Headed.byte_eq_getD ip.toHeaded 0
  rw [Ipv4Packet.headerLen, hbyte, List.getD_eq_getElem?_getD]
  rfl

/-- Whatever the header was, the length that is written into it is read from it. -/
theorem word_patch {head : Bytes} {n : ℕ} (hlen : 4 ≤ head.length) (hn : n < 65536) :
    ByteFields.word ((patch head 2 (bytes16 n)).getD 2 0) ((patch head 2 (bytes16 n)).getD 3 0) =
      n := by
  have hget (i : ℕ) (hi : i < 2) : (patch head 2 (bytes16 n))[2 + i]? = (bytes16 n)[i]? :=
    getElem?_patch_inside (by omega) hi
  rw [List.getD_eq_getElem?_getD, List.getD_eq_getElem?_getD, show 2 = 2 + 0 from rfl,
    show 3 = 2 + 1 from rfl, hget 0 (by decide), hget 1 (by decide)]
  exact word_bytes16 hn

theorem refill_append {head : Bytes} (htcp : ip.isTcp = true) (hlen : head.length = ip.headerLen) :
    refill ip (head ++ seg.bytes) = head ++ (seg.fill ip.srcAddr ip.dstAddr).bytes := by
  rw [refill, if_pos htcp, List.drop_left' hlen, Headed.headed_bytes]
  dsimp only
  rw [List.take_left' hlen]

/-- The packet with its segment reshaped, as a header and the segment. -/
theorem reshape_eq (os : Os) (hseg : ip.segment = some tcp) (hlow : 12 ≤ ip.headerLen)
    (hfits : tcp.isSyn = true → ScaleFits tcp.options) (offset : Option UInt32) :
    ∃ head : Bytes, reshape os ip.truncated ip tcp =
        head ++ ((⟨os, offset⟩ : Look).reshaped tcp).bytes ∧ head.length = ip.headerLen ∧
      (∀ i, i < 2 ∨ 4 ≤ i → head[i]? = (ip.bytes.take ip.headerLen)[i]?) ∧
      ByteFields.word (head.getD 2 0) (head.getD 3 0) =
        ip.headerLen + ((⟨os, offset⟩ : Look).reshaped tcp).bytes.length := by
  obtain ⟨htcp, htruncated⟩ := truncated_of_segment hseg
  obtain ⟨hlen, -⟩ := headerLen_take hlow
  have htake : ip.truncated.take ip.headerLen = ip.bytes.take ip.headerLen := by
    rw [htruncated]
    exact List.take_left' hlen
  have hplain : ByteFields.word ((ip.bytes.take ip.headerLen).getD 2 0)
      ((ip.bytes.take ip.headerLen).getD 3 0) = ip.headerLen + tcp.bytes.length := by
    have hbyte (i : Fin 20) : ip.byte i = ip.bytes.getD i 0 := Headed.byte_eq_getD _ i
    have htotal := congrArg List.length htruncated
    rw [length_truncated, List.length_append, hlen, Ipv4Packet.totalLen, Headed.word, hbyte,
      hbyte] at htotal
    rw [← htotal, List.getD_eq_getElem?_getD, List.getD_eq_getElem?_getD,
      List.getElem?_take_of_lt (by omega), List.getElem?_take_of_lt (by omega),
      List.getD_eq_getElem?_getD, List.getD_eq_getElem?_getD]
    rfl
  rw [reshape, Look.reshaped]
  cases hsyn : tcp.isSyn with
  | true =>
    have hshort := (laid_eq (hfits hsyn) os).2
    have hhigh := headerLen_le ip
    have hall : (ip.bytes.take ip.headerLen ++ (rebuildSyn tcp os.shape).bytes).length =
        ip.headerLen + (rebuildSyn tcp os.shape).bytes.length := by rw [List.length_append, hlen]
    rw [rebuildSyn_bytes_length] at hall
    refine ⟨patch (ip.bytes.take ip.headerLen) 2
      (bytes16 (ip.headerLen + (laid tcp os.shape).length)), ?_, ?_, fun i hi => ?_, ?_⟩
    · dsimp only
      rw [if_pos rfl, if_pos rfl, htake, hall, patch_append (by rw [length_bytes16]; omega)]
    · rw [length_patch (by rw [length_bytes16]; omega), hlen]
    · rcases hi with hi | hi
      · exact getElem?_patch_before (by omega) hi
      · exact getElem?_patch_behind (by rw [length_bytes16]; omega) (by rw [length_bytes16]; omega)
    · rw [word_patch (by omega) (by omega), if_pos rfl, rebuildSyn_bytes_length]
  | false =>
    refine ⟨ip.bytes.take ip.headerLen, ?_, hlen, fun i _ => rfl, ?_⟩
    · rw [if_neg Bool.false_ne_true, if_neg Bool.false_ne_true, htake]
      dsimp only
      cases os.timestamps with
      | true => rw [if_pos rfl, if_pos rfl]
      | false => rw [if_neg Bool.false_ne_true, if_neg Bool.false_ne_true, htruncated]
    · rw [if_neg Bool.false_ne_true, hplain]
      dsimp only
      split
      · rw [(Headed.alike_nopAlign tcp).1.length_bytes]
      · rfl

theorem move_eq {head : Bytes} {os : Os} {offset : Option UInt32}
    (hlen : head.length = ip.headerLen) :
    move offset ip.headerLen (head ++ ((⟨os, offset⟩ : Look).reshaped tcp).bytes) =
      some (head ++ ((⟨os, offset⟩ : Look).shifted tcp).bytes) := by
  rw [Look.shifted]
  cases offset with
  | none => rfl
  | some offset =>
    rw [move]
    dsimp only
    rw [List.drop_left' hlen, Headed.headed_bytes, Option.map_some, List.take_left' hlen]

/-- The ports and the numbers of a segment that goes out stay. -/
theorem take_render {look : Look} {src dst : Bytes}
    (hfits : tcp.isSyn = true → SynFits look.os tcp) :
    (look.render src dst tcp).front.take 12 = tcp.front.take 12 := by
  cases hsyn : tcp.isSyn with
  | true => exact (synKept_render hsyn (hfits hsyn) src dst).numbers
  | false =>
    have htake (l : Bytes) : l.take 12 = (l.take 16).take 12 := by rw [List.take_take]; rfl
    rw [htake, (segmentKept_render hsyn look src dst).alike.head, ← htake]

/-- What becomes of a packet with a segment. -/
theorem outbound_segment (hp : Ipv4Packet.newChecked p = some ip) (hseg : ip.segment = some tcp)
    (hlow : 12 ≤ ip.headerLen)
    (hfits : tcp.isSyn = true → SynFits ((s.start tcp d).osAt tcp.srcPort) tcp) :
    ∃ after, s.outbound d p = some (((s.start tcp d).number ((s.start tcp d).osAt tcp.srcPort)
        (some tcp.srcPort) d.ident).1, after) ∧
      Outgoing ip (((s.start tcp d).look tcp.srcPort).render ip.srcAddr ip.dstAddr tcp) after := by
  obtain ⟨htcp, -⟩ := truncated_of_segment hseg
  obtain ⟨-, hself⟩ := headerLen_take hlow
  obtain ⟨head, hreshape, hlen, hkept, hword⟩ := reshape_eq
    ((s.start tcp d).osAt tcp.srcPort) hseg hlow (fun hsyn => (hfits hsyn).scale)
    ((s.start tcp d).movedBy tcp.srcPort)
  have hfirst : head.headD 0 = (ip.bytes.take ip.headerLen).headD 0 := by
    rw [List.headD_eq_head?_getD, List.headD_eq_head?_getD, List.head?_eq_getElem?,
      List.head?_eq_getElem?, hkept 0 (by omega)]
  have hhigh := headerLen_le ip
  obtain ⟨head', hfill, hfilled⟩ := fillHeader_append
    (((s.start tcp d).look tcp.srcPort).shifted tcp).bytes (by rw [hlen]; exact hlow)
    (by rw [hlen]; exact hhigh) (by rw [hfirst, hself, hlen])
    ((s.start tcp d).osAt tcp.srcPort).shape.ttl
    ((s.start tcp d).number ((s.start tcp d).osAt tcp.srcPort) (some tcp.srcPort) d.ident).2
  have hlength :
      (((s.start tcp d).look tcp.srcPort).render ip.srcAddr ip.dstAddr tcp).bytes.length =
        (((s.start tcp d).look tcp.srcPort).reshaped tcp).bytes.length := by
    rw [Look.render, (Headed.alike_fill _ _ _).1.length_bytes, (alike_look _ tcp).length_bytes]
  refine ⟨_, ?_, outgoing_of hseg hlow hlen hfilled hkept (by rw [hlength]; exact hword)
    (take_render hfits)⟩
  rw [Shaper.outbound, hp]
  dsimp only
  rw [hseg]
  dsimp only
  rw [hreshape, move_eq hlen, Option.bind_some]
  dsimp only [Shaper.look] at hfill
  rw [hfill, Option.map_some, refill_append htcp (hfilled.length.trans hlen)]
  rfl

/-- What becomes of any other packet. -/
theorem outbound_other (hp : Ipv4Packet.newChecked p = some ip) (hseg : ip.segment = none)
    (hlow : 12 ≤ ip.headerLen) : ∃ after, s.outbound d p = some ((s.number .linux none d.ident).1,
      after) ∧ data (after.take ip.headerLen) = 65535 ∧
      after.drop ip.headerLen = ip.truncated.drop ip.headerLen := by
  obtain ⟨hlen, hself⟩ := headerLen_take hlow
  have hhigh := headerLen_le ip
  have hle := headerLen_le_totalLen ip
  have htake : ip.truncated = ip.bytes.take ip.headerLen ++ ip.truncated.drop ip.headerLen := by
    have hsplit := List.take_append_drop ip.headerLen ip.truncated
    rwa [truncated_eq, List.take_take, Nat.min_eq_left hle, ← truncated_eq, eq_comm] at hsplit
  obtain ⟨head', hfill, hfilled⟩ := fillHeader_append (ip.truncated.drop ip.headerLen)
    (by rw [hlen]; exact hlow) (by rw [hlen]; exact hhigh) (by rw [hself, hlen]) Os.linux.shape.ttl
    (s.number .linux none d.ident).2
  have hlen' := hfilled.length.trans hlen
  -- the rest is too short to be a segment, or the packet is something else
  have hrest : refill ip (head' ++ ip.truncated.drop ip.headerLen) =
      head' ++ ip.truncated.drop ip.headerLen := by
    rw [refill]
    split
    · rename_i htcp
      rw [List.drop_left' hlen']
      have hnone : headed (ip.truncated.drop ip.headerLen) = none := by
        rw [Ipv4Packet.segment, htcp, Bool.true_and, Nat.min_eq_left (totalLen_le ip)] at hseg
        split at hseg
        · exact hseg
        · rename_i hshort
          rw [decide_eq_true_eq] at hshort
          rw [headed, dif_neg]
          rw [List.length_drop, length_truncated]
          omega
      rw [hnone]
    · rfl
  refine ⟨head' ++ ip.truncated.drop ip.headerLen, ?_, ?_, ?_⟩
  · rw [Shaper.outbound, hp]
    dsimp only
    rw [hseg]
    dsimp only
    rw [← htake] at hfill
    rw [hfill, Option.map_some, hrest]
  · rw [List.take_left' hlen', hfilled.sum]
  · rw [List.drop_left' hlen']

end Outgoing

section Incoming

variable {s : Shaper} {q : Bytes} {ip : Ipv4Packet} {tcp : Headed}

/-- How far the timestamps of a port are moved back. -/
def Shaper.offsetAt (s : Shaper) (port : ℕ) : UInt32 := (s.flows port).elim 0 (·.tsOffset)

/-- A segment that comes in is shifted as far, and its checksum is filled in then. -/
theorem answered_cases (s : Shaper) (ip : Ipv4Packet) (tcp : Headed) :
    (s.answered ip tcp = tcp ∧ (s.offsetAt tcp.dstPort = 0 ∨ tcp.stamp = none)) ∨
      ∃ tcp', shiftTimestamp tcp 0 (-s.offsetAt tcp.dstPort) = some tcp' ∧
        s.answered ip tcp = tcp'.fill ip.srcAddr ip.dstAddr := by
  rw [Shaper.answered, Shaper.offsetAt]
  cases s.flows tcp.dstPort with
  | none => exact .inl ⟨rfl, .inl rfl⟩
  | some flow =>
    dsimp only [Option.elim_some]
    split
    · rename_i hzero
      exact .inl ⟨rfl, .inl hzero⟩
    · cases hshift : shiftTimestamp tcp 0 (-flow.tsOffset) with
      | none => exact .inl ⟨rfl, .inr (Headed.shiftTimestamp_eq_none_iff.mp hshift)⟩
      | some tcp' => exact .inr ⟨tcp', rfl, rfl⟩

theorem alike_answered (s : Shaper) (ip : Ipv4Packet) (tcp : Headed) :
    Headed.Alike tcp (s.answered ip tcp) := by
  rcases answered_cases s ip tcp with ⟨hsame, -⟩ | ⟨tcp', hshift, hsame⟩
  · rw [hsame]
    exact .refl tcp
  · rw [hsame]
    exact (Headed.shiftTimestamp_some hshift).1.trans (Headed.alike_fill tcp' _ _).1

/-- What a segment that comes in is stamped with. -/
theorem stamp_answered (s : Shaper) (ip : Ipv4Packet) (tcp : Headed) :
    (s.answered ip tcp).stamp = tcp.stamp.map fun x =>
      (x.1, if x.2 = 0 then 0 else x.2 - s.offsetAt tcp.dstPort) := by
  rcases answered_cases s ip tcp with ⟨hsame, hzero | hnone⟩ | ⟨tcp', hshift, hsame⟩
  · rw [hsame, hzero]
    have hid (x : UInt32 × UInt32) : (x.1, if x.2 = 0 then 0 else x.2 - 0) = x := by
      rw [UInt32.sub_zero]
      split
      · rename_i h
        rw [← h]
      · rfl
    simp only [hid]
    exact Option.map_id'.symm
  · rw [hsame, hnone]
    rfl
  · have hstamp := Headed.stamp_shift tcp 0 (-s.offsetAt tcp.dstPort)
    rw [hshift, Option.getD_some] at hstamp
    rw [hsame, stamp_fill, hstamp]
    congr 1
    funext x
    rw [Headed.shifted, UInt32.add_zero, UInt32.sub_eq_add_neg]

/-- What becomes of a packet that comes in with a segment. -/
theorem inbound_segment (s : Shaper) (hq : Ipv4Packet.newChecked q = some ip)
    (hseg : ip.segment = some tcp) (hlow : 4 ≤ ip.headerLen) :
    (∃ ip', Ipv4Packet.newChecked (s.inbound q) = some ip' ∧
      ip'.segment = some (s.answered ip tcp) ∧ Like ip ip') ∧
      (s.inbound q).length = q.length ∧ (s.inbound q).take ip.headerLen = q.take ip.headerLen ∧
      (s.inbound q).drop ip.totalLen = q.drop ip.totalLen := by
  obtain ⟨htcp, htruncated⟩ := truncated_of_segment hseg
  have hbytes := bytes_of_newChecked hq
  have hin : s.inbound q = q.take ip.headerLen ++ (s.answered ip tcp).bytes ++
      q.drop ip.totalLen := by
    have hmin := Nat.min_eq_left (totalLen_le ip)
    rw [hbytes] at hmin
    rw [Shaper.inbound, hq]
    dsimp only
    rw [hseg]
    dsimp only
    rw [hmin]
  have hsplit : q = q.take ip.headerLen ++ tcp.bytes ++ q.drop ip.totalLen := by
    rw [truncated_eq, hbytes] at htruncated
    rw [← htruncated, List.take_append_drop]
  have halike := alike_answered s ip tcp
  have hhead : (q.take ip.headerLen).length = ip.headerLen := by
    have hle := headerLen_le_length ip
    rw [hbytes] at hle
    rw [List.length_take, Nat.min_eq_left hle]
  have hboth : (q.take ip.headerLen ++ tcp.bytes).length = ip.totalLen := by
    have hlen := congrArg List.length htruncated
    rwa [length_truncated, hbytes, eq_comm] at hlen
  have hboth' : (q.take ip.headerLen ++ (s.answered ip tcp).bytes).length = ip.totalLen := by
    rw [List.length_append, halike.length_bytes, ← List.length_append, hboth]
  have hlength : (s.inbound q).length = q.length := by
    have hwas := congrArg List.length hsplit
    have hnow := congrArg List.length hin
    rw [List.length_append, hboth] at hwas
    rw [List.length_append, hboth'] at hnow
    exact hnow.trans hwas.symm
  have hsame (i : ℕ) (hi : i < ip.headerLen + 16) : (s.inbound q)[i]? = q[i]? := by
    have hread (seg : Headed) (rest : Bytes) :
        (q.take ip.headerLen ++ (seg.bytes ++ rest))[i]? =
          if i < ip.headerLen then (q.take ip.headerLen)[i]?
          else (seg.front.take 16)[i - ip.headerLen]? := by
      have hfront := seg.front_length
      have hlong := seg.length_bytes
      split
      · exact List.getElem?_append_left (by omega)
      · have hsmall : i - ip.headerLen < 16 := by omega
        rw [List.getElem?_append_right (by omega), hhead, List.getElem?_append_left (by omega),
          Headed.bytes, List.getElem?_append_left (by omega), List.getElem?_take_of_lt hsmall]
    have hwas := hread tcp (q.drop ip.totalLen)
    have hnow := hread (s.answered ip tcp) (q.drop ip.totalLen)
    rw [← List.append_assoc, ← hsplit] at hwas
    rw [← List.append_assoc, ← hin, halike.head] at hnow
    rw [hwas, hnow]
  have hlong := ip.toHeaded.length_bytes
  rw [hbytes] at hlong
  have hword : ByteFields.word ((s.inbound q).getD 2 0) ((s.inbound q).getD 3 0) = ip.totalLen := by
    have hbyte (i : Fin 20) : ip.byte i = q.getD i 0 := by rw [Headed.byte_eq_getD, hbytes]
    rw [Ipv4Packet.totalLen, Headed.word, hbyte, hbyte, List.getD_eq_getElem?_getD,
      List.getD_eq_getElem?_getD, hsame 2 (by omega), hsame 3 (by omega),
      List.getD_eq_getElem?_getD, List.getD_eq_getElem?_getD]
    rfl
  have htotal := totalLen_le ip
  rw [hbytes] at htotal
  obtain ⟨ip', hchecked, hbytes', htotalLen, hlike⟩ := like_of ip (by omega)
    (by rw [hbytes, hsame 0 (by omega)]) (by rw [hbytes, hsame 9 (by omega)])
    (fun i _ hi => by rw [hbytes, hsame i (by omega)]) hword (headerLen_le_totalLen ip) (by omega)
  refine ⟨⟨ip', hchecked, segment_of (q.take ip.headerLen) ?_ ?_ ?_, hlike⟩, hlength, ?_, ?_⟩
  · rw [hlike.isTcp, htcp]
  · rw [hlike.headerLen, hhead]
  · rw [truncated_eq, hbytes', htotalLen, hin]
    exact List.take_left' hboth'
  · rw [hin, List.append_assoc]
    exact List.take_left' hhead
  · rw [hin]
    exact List.drop_left' hboth'

end Incoming

end FuryBrowser.SynShape
