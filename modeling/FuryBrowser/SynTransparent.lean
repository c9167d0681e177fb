import FuryBrowser.GuardedRuns
import FuryBrowser.SynPackets

/-!
# Nobody notices the shaper

A stack, a shaper and a tunnel, and a history of what has gone in and out. The shaper takes no
packet that it cannot take, what goes out carries what the stack has sent, a SYN that is sent again
is the one that was sent before, and the time that comes back is the time that was sent.

Three things stand against it. The time of a segment can be moved to zero, which is the echo of
nothing and is not moved back. A header can be shorter than the fields that are written into it, or
say that it is longer than the segment. And the options of a SYN can be such that the system has no
place for them.
-/

namespace FuryBrowser.SynShape

open AgentDisk ByteFields InternetChecksum OptionList GuardedRuns

section Worlds

/-- What has happened. -/
inductive Event
  /-- A connection is about to be opened. -/
  | expected (port : ℕ) (os : Os)
  /-- A packet of the stack went out, with the look its port had. -/
  | sent (before after : Bytes) (look : Look)
  /-- A packet came in for the stack. -/
  | received (before after : Bytes)
  | panicked
  deriving DecidableEq

/-- What can happen. -/
inductive Op
  | expect (port : ℕ) (os : Os)
  /-- `outbound`, and what is drawn for the packet. -/
  | outbound (packet : Bytes) (d : Draws)
  | inbound (packet : Bytes)
  deriving DecidableEq

/-- The shaper, and a history with the newest first. -/
structure World where
  shaper : Shaper
  log : List Event

/-- The segment of a packet. -/
def segmentOf (packet : Bytes) : Option Headed :=
  (Ipv4Packet.newChecked packet).bind Ipv4Packet.segment

/-- The look a packet goes out with. -/
def Shaper.lookOf (s : Shaper) (d : Draws) (packet : Bytes) : Look :=
  match segmentOf packet with
  | none => ⟨.linux, none⟩
  | some tcp => (s.start tcp d).look tcp.srcPort

/-- One step. After a panic there is none. -/
def World.step (w : World) (op : Op) : Option World :=
  if w.log.head? = some .panicked then none
  else
    match op with
    | .expect port os => some ⟨w.shaper.expect port os, .expected port os :: w.log⟩
    | .outbound packet d =>
      match w.shaper.outbound d packet with
      | none => some ⟨w.shaper, .panicked :: w.log⟩
      | some (s, after) => some ⟨s, .sent packet after (w.shaper.lookOf d packet) :: w.log⟩
    | .inbound packet => some ⟨w.shaper, .received packet (w.shaper.inbound packet) :: w.log⟩

/-- `Shaper::new`. -/
def begun (w : World) : Prop := ∃ globalId, w = ⟨Shaper.new globalId, []⟩

end Worlds

section Transparency

/-- A segment that went out for another one of a packet. -/
structure SegmentSent (ip : Ipv4Packet) (look : Look) (before after : Headed) : Prop where
  /-- One that opens nothing is as long as it was and carries what it did. -/
  plain : before.isSyn = false → SegmentKept look before after
  /-- A SYN keeps its options. -/
  syn : before.isSyn = true → SynKept look before after
  /-- Its checksum is right, unless it is cut short and its checksum was not. -/
  sum : after.complete = true ∨ tcpSum ip.srcAddr ip.dstAddr before.bytes = 65535 →
    tcpSum ip.srcAddr ip.dstAddr after.bytes = 65535

/-- A packet that went out for another one. -/
structure PacketSent (before after : Bytes) (look : Look) : Prop where
  /-- What is no packet goes out as it is. -/
  refused : Ipv4Packet.newChecked before = none → after = before
  /-- The checksum of the header is right. -/
  sum : ∀ ip, Ipv4Packet.newChecked before = some ip → data (after.take ip.headerLen) = 65535
  /-- What has no segment carries what it did. -/
  other : ∀ ip, Ipv4Packet.newChecked before = some ip → ip.segment = none →
    after.drop ip.headerLen = ip.truncated.drop ip.headerLen
  /-- And what has one is a packet with one, with the same addresses. -/
  segment : ∀ ip tcp, Ipv4Packet.newChecked before = some ip → ip.segment = some tcp →
    ∃ ip' tcp', Ipv4Packet.newChecked after = some ip' ∧ ip'.segment = some tcp' ∧ Like ip ip' ∧
      ip'.totalLen = after.length ∧ SegmentSent ip look tcp tcp'

/-- A segment that came in for another one of a packet. -/
structure SegmentReceived (ip : Ipv4Packet) (before after : Headed) : Prop where
  /-- It is as long as it was and carries what it did. -/
  alike : Headed.Alike before after
  /-- The time it was sent stays. -/
  val : after.stamp.map (·.1) = before.stamp.map (·.1)
  /-- Its checksum is right if it was. -/
  sum : tcpSum ip.srcAddr ip.dstAddr before.bytes = 65535 →
    tcpSum ip.srcAddr ip.dstAddr after.bytes = 65535

/-- A packet that came in for another one. -/
structure PacketReceived (before after : Bytes) : Prop where
  /-- What has no segment comes in as it is. -/
  other : segmentOf before = none → after = before
  /-- It is as long as it was. -/
  length : after.length = before.length
  /-- And what has one is a packet with one, with the same header and nothing else behind it. -/
  segment : ∀ ip tcp, Ipv4Packet.newChecked before = some ip → ip.segment = some tcp →
    after.take ip.headerLen = before.take ip.headerLen ∧
      after.drop ip.totalLen = before.drop ip.totalLen ∧
      ∃ ip' tcp', Ipv4Packet.newChecked after = some ip' ∧ ip'.segment = some tcp' ∧
        Like ip ip' ∧ SegmentReceived ip tcp tcp'

/-- A SYN that is sent again, with no new connection expected between: it has the look of the one
before, and if it is the same, so is what goes out. -/
def SentAgain (earlier : List Event) (before after : Bytes) (look : Look) : Prop :=
  ∀ between first first' look' start, earlier = between ++ .sent first first' look' :: start →
    ∀ ip ip' tcp tcp', Ipv4Packet.newChecked before = some ip → ip.segment = some tcp →
      Ipv4Packet.newChecked first = some ip' → ip'.segment = some tcp' →
      tcp.isSyn = true → tcp'.isSyn = true → tcp.srcPort = tcp'.srcPort →
      (∀ os, .expected tcp.srcPort os ∉ between) →
      look = look' ∧ (tcp = tcp' → Like ip ip' → segmentOf after = segmentOf first')

/-- A time that comes back is the time that was sent. -/
def Echoed (earlier : List Event) (before after : Bytes) : Prop :=
  ∀ packet packet' look, .sent packet packet' look ∈ earlier →
    ∀ tcp tcp' seg seg', segmentOf packet = some tcp → segmentOf packet' = some tcp' →
      segmentOf before = some seg → segmentOf after = some seg' → tcp.srcPort = seg.dstPort →
      ∀ v e w e' a, tcp.stamp = some (v, e) → tcp'.stamp = some (w, e') →
        seg.stamp = some (a, w) → seg'.stamp = some (a, v)

/-- What is said of an event, with what came before it. -/
def Fine (earlier : List Event) : Event → Prop
  | .expected _ _ => True
  | .sent before after look => PacketSent before after look ∧ SentAgain earlier before after look
  | .received before after => PacketReceived before after ∧ Echoed earlier before after
  | .panicked => False

/-- It is said of all events. -/
def Transparent : List Event → Prop
  | [] => True
  | event :: earlier => Fine earlier event ∧ Transparent earlier

/-- A packet that can be sent: the fields that are written lie in its header, its SYN fits the
system, and a timestamp that is moved is in a header that is there. -/
def CanSend (s : Shaper) (d : Draws) (packet : Bytes) : Prop :=
  ∀ ip, Ipv4Packet.newChecked packet = some ip → 12 ≤ ip.headerLen ∧
    ∀ tcp, ip.segment = some tcp →
      (tcp.isSyn = true → SynFits ((s.start tcp d).osAt tcp.srcPort) tcp) ∧
      (tcp.isSyn = false → tcp.complete = true ∨ tcp.stamp = none ∨
        ((s.start tcp d).look tcp.srcPort).distance = 0)

/-- An echo that the code can move back: the time was not moved to zero, and the port still has the
offset that the segment went out with. -/
def Answers (s : Shaper) (seg : Headed) : Event → Prop
  | .sent packet _ look => ∀ tcp, segmentOf packet = some tcp → tcp.srcPort = seg.dstPort →
    ∀ x, tcp.stamp = some x → ∀ y, seg.stamp = some y → y.2 = x.1 + look.distance →
      if y.2 = 0 then x.1 = 0 else s.offsetAt seg.dstPort = look.distance
  | _ => True

/-- A packet that can come in: it has a header, a time that is moved back is in a header that is
there, and what it echoes can be moved back. -/
def CanReceive (w : World) (packet : Bytes) : Prop :=
  ∀ ip, Ipv4Packet.newChecked packet = some ip → ∀ seg, ip.segment = some seg →
    4 ≤ ip.headerLen ∧
    (seg.complete = true ∨ w.shaper.offsetAt seg.dstPort = 0 ∨ ∀ x, seg.stamp = some x → x.2 = 0) ∧
    ∀ event ∈ w.log, Answers w.shaper seg event

/-- The steps for which the shaper is made. -/
def suited (w : World) : Op → Prop
  | .expect _ _ => True
  | .outbound packet d => CanSend w.shaper d packet
  | .inbound packet => CanReceive w packet

end Transparency

section Shapers

variable {s : Shaper} {d : Draws} {packet after : Bytes} {look : Look} {ip : Ipv4Packet}
  {tcp : Headed} {port : ℕ}

/-- A number is drawn without a look at what is expected, and the looks stay. -/
theorem number_keeps (s : Shaper) (os : Os) (mine : Option ℕ) (ident : UInt16) (port : ℕ) :
    (s.number os mine ident).1.expected port = s.expected port ∧
      (s.number os mine ident).1.look port = s.look port := by
  unfold Shaper.number
  split
  · exact ⟨rfl, rfl⟩
  · exact ⟨rfl, rfl⟩
  · split
    · exact ⟨rfl, rfl⟩
    · rename_i own
      split
      · exact ⟨rfl, rfl⟩
      · rename_i flow hflow
        refine ⟨rfl, ?_⟩
        by_cases hport : port = own
        · subst hport
          simp only [Shaper.look, Shaper.osAt, Shaper.movedBy, Function.update_self, hflow]
          rfl
        · simp only [Shaper.look, Shaper.osAt, Shaper.movedBy, Function.update_of_ne hport]

/-- A port for which nothing is expected keeps its look. -/
theorem start_keeps (tcp : Headed) (d : Draws) (h : s.expected port = none) :
    (s.start tcp d).expected port = none ∧ (s.start tcp d).look port = s.look port := by
  rw [Shaper.start, Shaper.dial]
  split
  · split
    · rename_i os hos
      have hport : port ≠ tcp.srcPort := by
        rintro rfl
        cases h.symm.trans hos
      refine ⟨?_, ?_⟩
      · rw [← h]
        exact Function.update_of_ne hport _ _
      · simp only [Shaper.look, Shaper.osAt, Shaper.movedBy, Function.update_of_ne hport]
    · exact ⟨h, rfl⟩
  · exact ⟨h, rfl⟩

/-- After a SYN nothing is expected for its port. -/
theorem start_expected (s : Shaper) (d : Draws) (h : tcp.isSyn = true) :
    (s.start tcp d).expected tcp.srcPort = none := by
  rw [Shaper.start, if_pos h, Shaper.dial]
  split
  · exact Function.update_self _ _ _
  · assumption

theorem segmentOf_eq (hp : Ipv4Packet.newChecked packet = some ip) :
    segmentOf packet = ip.segment := by
  rw [segmentOf, hp, Option.bind_some]

theorem lookOf_eq (s : Shaper) (d : Draws) (hp : Ipv4Packet.newChecked packet = some ip)
    (hseg : ip.segment = some tcp) : s.lookOf d packet = (s.start tcp d).look tcp.srcPort := by
  rw [Shaper.lookOf, segmentOf_eq hp, hseg]

theorem fill_of_not_complete (h : tcp.complete = false) (src dst : Bytes) :
    tcp.fill src dst = tcp := by
  rw [Headed.fill, if_neg (Bool.eq_false_iff.mp h)]

theorem length_addr (ip : Ipv4Packet) : ip.srcAddr.length = 4 ∧ ip.dstAddr.length = 4 := by
  have hlen := ip.toHeaded.length_bytes
  rw [Ipv4Packet.srcAddr, Ipv4Packet.dstAddr, List.length_take, List.length_take, List.length_drop,
    List.length_drop]
  omega

theorem length_segment (h : ip.segment = some tcp) : tcp.bytes.length ≤ 65535 := by
  obtain ⟨-, htruncated⟩ := truncated_of_segment h
  have hlen := congrArg List.length htruncated
  have hword := word_lt (ip.byte 2) (ip.byte 3)
  rw [length_truncated, List.length_append] at hlen
  rw [Ipv4Packet.totalLen, Headed.word] at hlen
  omega

/-- Without a stamp or a distance nothing is moved. -/
theorem shifted_same (h : tcp.isSyn = false) (hcut : tcp.complete = false)
    (hsame : tcp.stamp = none ∨ look.distance = 0) : look.shifted tcp = tcp := by
  have hreshaped : look.reshaped tcp = tcp := by
    rw [Look.reshaped, if_neg (Bool.eq_false_iff.mp h)]
    split
    · rw [nopAlign, if_neg]
      rintro ⟨hoff, hlong, -⟩
      rw [Headed.complete, hoff, decide_eq_true hlong] at hcut
      cases hcut
    · rfl
  rw [Look.shifted, hreshaped]
  cases hoffset : look.offset with
  | none => rfl
  | some offset =>
    dsimp only
    cases hshift : shiftTimestamp tcp offset 0 with
    | none => rfl
    | some tcp' =>
      refine Headed.shiftTimestamp_same hshift fun x hx => ?_
      rcases hsame with hnone | hzero
      · cases hnone.symm.trans hx
      · rw [Look.distance, hoffset, Option.getD_some] at hzero
        rw [hzero, shifted_zero, UInt32.add_zero]

theorem segmentSent_render (hseg : ip.segment = some tcp)
    (hsyn : tcp.isSyn = true → SynFits look.os tcp)
    (hplain : tcp.isSyn = false → tcp.complete = true ∨ tcp.stamp = none ∨ look.distance = 0) :
    SegmentSent ip look tcp (look.render ip.srcAddr ip.dstAddr tcp) := by
  obtain ⟨hsrc, hdst⟩ := length_addr ip
  have hfill := (Headed.alike_fill (look.shifted tcp) ip.srcAddr ip.dstAddr).1
  have hright (hlen : (look.shifted tcp).bytes.length ≤ 65535)
      (hcomplete : (look.shifted tcp).complete = true) :
      tcpSum ip.srcAddr ip.dstAddr (look.render ip.srcAddr ip.dstAddr tcp).bytes = 65535 :=
    Headed.tcpSum_fill hsrc hdst hlen hcomplete
  refine ⟨fun h => segmentKept_render h look _ _, fun h => synKept_render h (hsyn h) _ _,
    fun hsum => ?_⟩
  cases h : tcp.isSyn with
  | true =>
    have hkept := synKept_render h (hsyn h) ip.srcAddr ip.dstAddr
    have hlong := (look.shifted tcp).length_bytes
    have hshort := hkept.short
    have hoffset := hkept.offset
    rw [Look.render, hfill.length_bytes] at hshort hoffset
    rw [hfill.dataOffset] at hoffset
    refine hright (by omega) ?_
    rw [Headed.complete, hoffset, Bool.and_eq_true, decide_eq_true_eq, decide_eq_true_eq]
    exact ⟨by omega, Nat.le_refl _⟩
  | false =>
    have hkept := (segmentKept_render h look ip.srcAddr ip.dstAddr).alike
    have hlen : (look.shifted tcp).bytes.length ≤ 65535 := by
      rw [← hfill.length_bytes]
      exact Nat.le_trans (Nat.le_of_eq hkept.length_bytes) (length_segment hseg)
    cases hcomplete : tcp.complete with
    | true => exact hright hlen (by rw [← hfill.complete]; exact hkept.complete.trans hcomplete)
    | false =>
      have hcut : (look.render ip.srcAddr ip.dstAddr tcp).complete = false :=
        hkept.complete.trans hcomplete
      have hshifted := shifted_same h hcomplete ((hplain h).resolve_left fun htrue => by
        cases hcomplete.symm.trans htrue)
      rw [Look.render, hshifted, fill_of_not_complete hcomplete]
      rw [hcut] at hsum
      exact hsum.resolve_left Bool.false_ne_true

theorem packetSent_outbound (h : CanSend s d packet) : ∃ s' after,
    s.outbound d packet = some (s', after) ∧ PacketSent packet after (s.lookOf d packet) := by
  cases hp : Ipv4Packet.newChecked packet with
  | none =>
    refine ⟨s, packet, by rw [Shaper.outbound, hp], fun _ => rfl, fun ip hip => ?_,
      fun ip hip => ?_, fun ip tcp hip => ?_⟩ <;> cases hp.symm.trans hip
  | some ip =>
    obtain ⟨hlow, hfits⟩ := h ip hp
    have hone {ip'} (hip : Ipv4Packet.newChecked packet = some ip') : ip' = ip :=
      Option.some.inj (hip.symm.trans hp)
    cases hseg : ip.segment with
    | none =>
      obtain ⟨after, hout, hsum, hdrop⟩ := outbound_other (s := s) (d := d) hp hseg hlow
      refine ⟨_, after, hout, fun hno => ?_, fun ip' hip => ?_, fun ip' hip _ => ?_,
        fun ip' tcp hip htcp => ?_⟩
      · cases hno.symm.trans hp
      · rw [hone hip, hsum]
      · rw [hone hip, hdrop]
      · rw [hone hip] at htcp
        cases hseg.symm.trans htcp
    | some tcp =>
      obtain ⟨hsyn, hplain⟩ := hfits tcp hseg
      obtain ⟨after, hout, ⟨ip', hchecked, hsegment, hlike, htotal⟩, hsum⟩ :=
        outbound_segment (s := s) (d := d) hp hseg hlow hsyn
      refine ⟨_, after, hout, fun hno => ?_, fun ip₁ hip => ?_, fun ip₁ hip hnone => ?_,
        fun ip₁ tcp₁ hip htcp => ?_⟩
      · cases hno.symm.trans hp
      · rw [hone hip, hsum]
      · rw [hone hip] at hnone
        cases hseg.symm.trans hnone
      · rw [hone hip] at htcp ⊢
        cases hseg.symm.trans htcp
        rw [lookOf_eq s d hp hseg]
        exact ⟨ip', _, hchecked, hsegment, hlike, htotal, segmentSent_render hseg hsyn hplain⟩

/-- What is left of a shaper, but for numbers, when a packet has gone out. -/
theorem outbound_ports {s' : Shaper} (h : CanSend s d packet)
    (hout : s.outbound d packet = some (s', after)) (port : ℕ) :
    (segmentOf packet = none ∧ s'.expected port = s.expected port ∧ s'.look port = s.look port) ∨
      ∃ tcp, segmentOf packet = some tcp ∧ s.lookOf d packet = (s.start tcp d).look tcp.srcPort ∧
        s'.expected port = (s.start tcp d).expected port ∧
        s'.look port = (s.start tcp d).look port := by
  cases hp : Ipv4Packet.newChecked packet with
  | none =>
    rw [Shaper.outbound, hp] at hout
    cases hout
    exact .inl ⟨by rw [segmentOf, hp, Option.bind_none], rfl, rfl⟩
  | some ip =>
    obtain ⟨hlow, hfits⟩ := h ip hp
    cases hseg : ip.segment with
    | none =>
      obtain ⟨after', hout', -⟩ := outbound_other (s := s) (d := d) hp hseg hlow
      cases hout.symm.trans hout'
      exact .inl ⟨(segmentOf_eq hp).trans hseg, number_keeps s .linux none d.ident port⟩
    | some tcp =>
      obtain ⟨after', hout', -⟩ :=
        outbound_segment (s := s) (d := d) hp hseg hlow (hfits tcp hseg).1
      cases hout.symm.trans hout'
      exact .inr ⟨tcp, (segmentOf_eq hp).trans hseg, lookOf_eq s d hp hseg,
        number_keeps (s.start tcp d) _ _ d.ident port⟩

theorem segmentReceived_answered (hseg : ip.segment = some tcp)
    (hcut : tcp.complete = true ∨ s.offsetAt tcp.dstPort = 0 ∨
      ∀ x, tcp.stamp = some x → x.2 = 0) : SegmentReceived ip tcp (s.answered ip tcp) := by
  obtain ⟨hsrc, hdst⟩ := length_addr ip
  refine ⟨alike_answered s ip tcp, ?_, fun hsum => ?_⟩
  · rw [stamp_answered, Option.map_map]
    rfl
  · rcases answered_cases s ip tcp with ⟨hsame, -⟩ | ⟨tcp', hshift, hsame⟩
    · rwa [hsame]
    · have halike := (Headed.shiftTimestamp_some hshift).1
      rw [hsame]
      cases hcomplete : tcp.complete with
      | true =>
        have hlen := Nat.le_trans (Nat.le_of_eq halike.length_bytes) (length_segment hseg)
        exact Headed.tcpSum_fill hsrc hdst hlen (halike.complete.trans hcomplete)
      | false =>
        have hrest := hcut.resolve_left fun htrue => by cases hcomplete.symm.trans htrue
        have htcp : tcp' = tcp := by
          refine Headed.shiftTimestamp_same hshift fun x hx => ?_
          rw [Headed.shifted, UInt32.add_zero]
          rcases hrest with hzero | hecr
          · rw [hzero, UInt32.neg_zero, UInt32.add_zero]
            split
            · rename_i hnothing
              rw [← hnothing]
            · rfl
          · have hnothing := hecr x hx
            rw [if_pos hnothing, ← hnothing]
        rwa [htcp, fill_of_not_complete hcomplete]

end Shapers

section Runs

variable {w w' : World} {op : Op}

/-- What every run keeps. -/
structure Kept (w : World) : Prop where
  /-- Everything so far is fine. -/
  fine : Transparent w.log
  /-- What went out is the segment with the look it had. -/
  rendered : ∀ packet after look, .sent packet after look ∈ w.log → ∀ ip tcp,
    Ipv4Packet.newChecked packet = some ip → ip.segment = some tcp →
    segmentOf after = some (look.render ip.srcAddr ip.dstAddr tcp) ∧
      (tcp.isSyn = true → SynFits look.os tcp)
  /-- The look of a SYN is the look of its port, until something else is expected for it. -/
  settled : ∀ between packet after look start,
    w.log = between ++ .sent packet after look :: start →
    ∀ tcp, segmentOf packet = some tcp → tcp.isSyn = true →
      (∀ os, .expected tcp.srcPort os ∉ between) →
      w.shaper.expected tcp.srcPort = none ∧ w.shaper.look tcp.srcPort = look

theorem kept_begun (h : begun w) : Kept w := by
  obtain ⟨globalId, rfl⟩ := h
  refine ⟨trivial, nofun, fun between packet after look start h => ?_⟩
  cases between <;> cases h

theorem Kept.expect (h : Kept w) (port : ℕ) (os : Os) :
    Kept ⟨w.shaper.expect port os, .expected port os :: w.log⟩ := by
  refine ⟨⟨trivial, h.fine⟩, fun packet after look hmem => ?_,
    fun between packet after look start hlog tcp htcp hsyn hno => ?_⟩
  · rcases List.mem_cons.mp hmem with heq | hold
    · cases heq
    · exact h.rendered packet after look hold
  · cases between with
    | nil => cases hlog
    | cons event between =>
      obtain ⟨rfl, hold⟩ := List.cons.inj hlog
      have hport : tcp.srcPort ≠ port := by
        rintro rfl
        exact hno os List.mem_cons_self
      obtain ⟨hnone, hlook⟩ := h.settled between packet after look start hold tcp htcp hsyn
        fun os hmem => hno os (List.mem_cons_of_mem _ hmem)
      exact ⟨(Function.update_of_ne hport _ _).trans hnone, hlook⟩

theorem Kept.sentAgain (h : Kept w) {d : Draws} {packet after : Bytes}
    (hrendered : ∀ ip tcp, Ipv4Packet.newChecked packet = some ip → ip.segment = some tcp →
      segmentOf after =
        some ((w.shaper.lookOf d packet).render ip.srcAddr ip.dstAddr tcp)) :
    SentAgain w.log packet after (w.shaper.lookOf d packet) := by
  intro between first first' look' start hlog ip ip' tcp tcp' hp hseg hp' hseg' hsyn hsyn' hport hno
  obtain ⟨hnone, hlook⟩ := h.settled between first first' look' start hlog tcp'
    ((segmentOf_eq hp').trans hseg') hsyn' (by rwa [hport] at hno)
  rw [← hport] at hnone hlook
  have hsame : w.shaper.lookOf d packet = look' := by
    rw [lookOf_eq w.shaper d hp hseg, (start_keeps tcp d hnone).2, hlook]
  refine ⟨hsame, fun htcp hlike => ?_⟩
  have hmem : Event.sent first first' look' ∈ w.log := by
    rw [hlog]
    exact List.mem_append_right between List.mem_cons_self
  rw [hrendered ip tcp hp hseg, (h.rendered first first' look' hmem ip' tcp' hp' hseg').1, hsame,
    htcp, hlike.srcAddr, hlike.dstAddr]

theorem Kept.outbound (h : Kept w) {d : Draws} {packet after : Bytes} {s : Shaper}
    (hg : CanSend w.shaper d packet) (hout : w.shaper.outbound d packet = some (s, after)) :
    Kept ⟨s, .sent packet after (w.shaper.lookOf d packet) :: w.log⟩ := by
  have hsent : PacketSent packet after (w.shaper.lookOf d packet) := by
    obtain ⟨s', after', hout', hsent⟩ := packetSent_outbound hg
    cases hout.symm.trans hout'
    exact hsent
  have hrendered (ip : Ipv4Packet) (tcp : Headed) (hp : Ipv4Packet.newChecked packet = some ip)
      (hseg : ip.segment = some tcp) :
      segmentOf after = some ((w.shaper.lookOf d packet).render ip.srcAddr ip.dstAddr tcp) ∧
        (tcp.isSyn = true → SynFits (w.shaper.lookOf d packet).os tcp) := by
    obtain ⟨hlow, hfits⟩ := hg ip hp
    obtain ⟨after', hout', ⟨ip', hchecked, hsegment, -⟩, -⟩ :=
      outbound_segment (s := w.shaper) (d := d) hp hseg hlow (hfits tcp hseg).1
    cases hout.symm.trans hout'
    rw [lookOf_eq w.shaper d hp hseg, segmentOf_eq hchecked]
    exact ⟨hsegment, (hfits tcp hseg).1⟩
  -- a port for which nothing is expected keeps its look, and a SYN has nothing expected after it
  have hports (port : ℕ) (hnone : w.shaper.expected port = none) :
      s.expected port = none ∧ s.look port = w.shaper.look port := by
    rcases outbound_ports hg hout port with ⟨-, hexpected, hlook⟩ | ⟨tcp, -, -, hexpected, hlook⟩
    · exact ⟨hexpected.trans hnone, hlook⟩
    · obtain ⟨hkept, hsame⟩ := start_keeps tcp d hnone
      exact ⟨hexpected.trans hkept, hlook.trans hsame⟩
  have hsyns (tcp : Headed) (htcp : segmentOf packet = some tcp) (hsyn : tcp.isSyn = true) :
      s.expected tcp.srcPort = none ∧ s.look tcp.srcPort = w.shaper.lookOf d packet := by
    rcases outbound_ports hg hout tcp.srcPort with ⟨hnone, -⟩ | ⟨tcp', htcp', hof, hexpected, hlook⟩
    · cases hnone.symm.trans htcp
    · cases htcp.symm.trans htcp'
      exact ⟨hexpected.trans (start_expected w.shaper d hsyn), hlook.trans hof.symm⟩
  refine ⟨⟨⟨hsent, h.sentAgain fun ip tcp hp hseg => (hrendered ip tcp hp hseg).1⟩, h.fine⟩,
    fun packet' after' look hmem => ?_,
    fun between packet' after' look start hlog tcp htcp hsyn hno => ?_⟩
  · rcases List.mem_cons.mp hmem with heq | hold
    · cases heq
      exact hrendered
    · exact h.rendered packet' after' look hold
  · match between with
    | [] =>
      cases hlog
      exact hsyns tcp htcp hsyn
    | event :: between =>
      obtain ⟨-, hold⟩ := List.cons.inj hlog
      obtain ⟨hnone, hlook⟩ := h.settled between packet' after' look start hold tcp htcp hsyn
        fun os hmem => hno os (List.mem_cons_of_mem _ hmem)
      rw [← hlook]
      exact hports tcp.srcPort hnone

/-- A time that comes back is moved back. -/
theorem Kept.echoed (h : Kept w) {packet : Bytes} (hg : CanReceive w packet) :
    Echoed w.log packet (w.shaper.inbound packet) := by
  intro sent sent' look hmem tcp tcp' seg seg' htcp htcp' hseg hseg' hport v e x e' a hv hx hecr
  obtain ⟨ip, hip, hsegment⟩ := Option.bind_eq_some_iff.mp htcp
  obtain ⟨hrender, hfits⟩ := h.rendered sent sent' look hmem ip tcp hip hsegment
  cases htcp'.symm.trans hrender
  have hmoved : x = v + look.distance := stamp_render hfits hv hx
  obtain ⟨ip₂, hq, hsegment₂⟩ := Option.bind_eq_some_iff.mp hseg
  obtain ⟨hlow, -, hback⟩ := hg ip₂ hq seg hsegment₂
  have hcan := hback _ hmem tcp htcp hport (v, e) hv (a, x) hecr hmoved
  dsimp only at hcan
  obtain ⟨⟨ip', hchecked, hanswer, -⟩, -⟩ := inbound_segment w.shaper hq hsegment₂ hlow
  rw [segmentOf_eq hchecked, hanswer] at hseg'
  cases hseg'
  rw [stamp_answered, hecr, Option.map_some]
  dsimp only
  split
  · rename_i hzero
    rw [if_pos hzero] at hcan
    rw [hcan]
  · rename_i hnot
    rw [if_neg hnot] at hcan
    rw [hcan, hmoved, UInt32.add_sub_cancel]

theorem Kept.inbound (h : Kept w) {packet : Bytes} (hg : CanReceive w packet) :
    Kept ⟨w.shaper, .received packet (w.shaper.inbound packet) :: w.log⟩ := by
  have hother (hnone : segmentOf packet = none) : w.shaper.inbound packet = packet := by
    rw [Shaper.inbound]
    cases hq : Ipv4Packet.newChecked packet with
    | none => rfl
    | some ip =>
      rw [segmentOf_eq hq] at hnone
      dsimp only
      rw [hnone]
  have hreceived : PacketReceived packet (w.shaper.inbound packet) := by
    refine ⟨hother, ?_, fun ip seg hq hseg => ?_⟩
    · cases hseg : segmentOf packet with
      | none => rw [hother hseg]
      | some seg =>
        obtain ⟨ip, hq, hsegment⟩ := Option.bind_eq_some_iff.mp hseg
        exact (inbound_segment w.shaper hq hsegment (hg ip hq seg hsegment).1).2.1
    · obtain ⟨hlow, hcut, -⟩ := hg ip hq seg hseg
      obtain ⟨⟨ip', hchecked, hanswer, hlike⟩, -, htake, hdrop⟩ :=
        inbound_segment w.shaper hq hseg hlow
      exact ⟨htake, hdrop, ip', _, hchecked, hanswer, hlike,
        segmentReceived_answered hseg hcut⟩
  refine ⟨⟨⟨hreceived, h.echoed hg⟩, h.fine⟩, fun sent after look hmem => ?_,
    fun between sent after look start hlog tcp htcp hsyn hno => ?_⟩
  · rcases List.mem_cons.mp hmem with heq | hold
    · cases heq
    · exact h.rendered sent after look hold
  · cases between with
    | nil => cases hlog
    | cons event between =>
      obtain ⟨-, hold⟩ := List.cons.inj hlog
      exact h.settled between sent after look start hold tcp htcp hsyn
        fun os hmem => hno os (List.mem_cons_of_mem _ hmem)

theorem kept_step : Preserved World.step suited Kept := by
  intro w op w' h hg hs
  unfold World.step at hs
  split at hs
  · cases hs
  · cases op with
    | expect port os =>
      cases hs
      exact h.expect port os
    | outbound packet d =>
      obtain ⟨s, after, hout, -⟩ := packetSent_outbound hg
      dsimp only at hs
      rw [hout] at hs
      cases hs
      exact h.outbound hg hout
    | inbound packet =>
      cases hs
      exact h.inbound hg

end Runs

section Samples

local instance decidableSome {α : Type*} (o : Option α) (P : α → Prop) [DecidablePred P] :
    Decidable (∀ x, o = some x → P x) :=
  match o with
  | none => .isTrue nofun
  | some x => decidable_of_iff (P x) ⟨fun h _ hx => Option.some.inj hx ▸ h, fun h => h x rfl⟩

instance (opts : List (UInt8 × Bytes)) : Decidable (ScaleFits opts) :=
  inferInstanceAs (Decidable (∀ ws, find opts 3 = some ws → ws.length = 1))

instance (os : Os) (tcp : Headed) : Decidable (SynFits os tcp) :=
  decidable_of_iff (ScaleFits tcp.options ∧ (os.timestamps = true ∨ tcp.value 8 8 = none))
    ⟨fun h => ⟨h.1, h.2⟩, fun h => ⟨h.scale, h.ts⟩⟩

instance (s : Shaper) (d : Draws) (packet : Bytes) : Decidable (CanSend s d packet) :=
  inferInstanceAs (Decidable (∀ ip, Ipv4Packet.newChecked packet = some ip → 12 ≤ ip.headerLen ∧
    ∀ tcp, ip.segment = some tcp →
      (tcp.isSyn = true → SynFits ((s.start tcp d).osAt tcp.srcPort) tcp) ∧
      (tcp.isSyn = false → tcp.complete = true ∨ tcp.stamp = none ∨
        ((s.start tcp d).look tcp.srcPort).distance = 0)))

instance (s : Shaper) (seg : Headed) (event : Event) : Decidable (Answers s seg event) :=
  match event with
  | .sent packet _ look => inferInstanceAs (Decidable (∀ tcp, segmentOf packet = some tcp →
      tcp.srcPort = seg.dstPort → ∀ x, tcp.stamp = some x → ∀ y, seg.stamp = some y →
      y.2 = x.1 + look.distance →
      if y.2 = 0 then x.1 = 0 else s.offsetAt seg.dstPort = look.distance))
  | .expected _ _ => .isTrue trivial
  | .received _ _ => .isTrue trivial
  | .panicked => .isTrue trivial

instance (w : World) (packet : Bytes) : Decidable (CanReceive w packet) :=
  inferInstanceAs (Decidable (∀ ip, Ipv4Packet.newChecked packet = some ip →
    ∀ seg, ip.segment = some seg → 4 ≤ ip.headerLen ∧
      (seg.complete = true ∨ w.shaper.offsetAt seg.dstPort = 0 ∨
        ∀ x, seg.stamp = some x → x.2 = 0) ∧
      ∀ event ∈ w.log, Answers w.shaper seg event))

instance (w : World) (op : Op) : Decidable (suited w op) :=
  match op with
  | .expect _ _ => .isTrue trivial
  | .outbound packet d => inferInstanceAs (Decidable (CanSend w.shaper d packet))
  | .inbound packet => inferInstanceAs (Decidable (CanReceive w packet))

/-- A SYN of the stack, of port 49153: mss 1380, scale 7, and the time 100. -/
def syn : Bytes :=
  [69, 0, 0, 60, 0, 0, 64, 0, 64, 6, 0, 0, 10, 2, 0, 2, 1, 1, 1, 1,
    192, 1, 1, 187, 253, 236, 248, 162, 0, 0, 0, 0, 160, 2, 255, 255, 0, 0, 0, 0,
    2, 4, 5, 100, 3, 3, 7, 4, 2, 8, 10, 0, 0, 0, 100, 0, 0, 0, 0, 0]

/-- An answer to it, at the time 7, that echoes a time below 65536. -/
def synAck (ecr : ℕ) : Bytes :=
  [69, 0, 0, 52, 0, 0, 64, 0, 64, 6, 0, 0, 1, 1, 1, 1, 10, 2, 0, 2,
    1, 187, 192, 1, 0, 0, 0, 9, 253, 236, 248, 163, 128, 18, 255, 255, 0, 0, 0, 0,
    1, 1, 8, 10, 0, 0, 0, 7, 0, 0] ++ bytes16 ecr

/-- Two bytes that the stack sends then, with nothing but a timestamp. -/
def segment : Bytes :=
  [69, 0, 0, 54, 0, 0, 64, 0, 64, 6, 0, 0, 10, 2, 0, 2, 1, 1, 1, 1,
    192, 1, 1, 187, 253, 236, 248, 163, 0, 0, 0, 10, 128, 24, 1, 0, 0, 0, 0, 0,
    8, 10, 0, 0, 0, 150, 0, 0, 0, 7, 0, 0, 104, 105]

/-- A connection is opened, the SYN is sent twice, and the times come back. -/
def answeredRun : List Op :=
  [.expect 49153 .linux, .outbound syn ⟨5, 1000, 0⟩, .outbound syn ⟨6, 2000, 0⟩,
    .inbound (synAck 1100), .outbound segment ⟨7, 3000, 0⟩, .inbound (synAck 1150)]

/-- The time of the SYN is moved to zero. -/
def wrappedRun : List Op :=
  [.expect 49153 .linux, .outbound syn ⟨5, 4294967196, 0⟩, .inbound (synAck 0)]

/-- The world in the beginning. -/
def start : World := ⟨Shaper.new 0, []⟩

/-- The history of a run. -/
def logOf (ops : List Op) : List Event := ((run World.step start ops).map (·.log)).getD []

theorem logOf_eq {ops : List Op} {w : World} (h : run World.step start ops = some w) :
    logOf ops = w.log := by
  rw [logOf, h]
  rfl

/-- The SYN of the run that goes wrong, as it goes out. -/
def wrappedSyn : Bytes :=
  (((Shaper.new 0).expect 49153 .linux).outbound ⟨5, 4294967196, 0⟩ syn).elim [] (·.2)

end Samples

/-- The shaper is transparent, if every packet is one that can be sent or come in. -/
theorem shaping_transparent {w : World} (h : Reached begun World.step suited w) :
    Transparent w.log :=
  (h.invariant Kept (fun _ => kept_begun) kept_step).fine

theorem shaping_transparent_answered : (logOf answeredRun).length = 6 ∧
    Transparent (logOf answeredRun) := by
  obtain ⟨w, hw⟩ := Option.isSome_iff_exists.mp
    (by decide +kernel : (run World.step start answeredRun).isSome)
  refine ⟨by decide +kernel, ?_⟩
  rw [logOf_eq hw]
  exact shaping_transparent (.run answeredRun (.start ⟨0, rfl⟩) (by decide +kernel) hw)

/-- A time that is moved to zero does not come back. -/
theorem shaping_wraps : ¬ ∀ w, Reached begun World.step anyStep w → Transparent w.log := by
  intro hall
  obtain ⟨w, hw⟩ := Option.isSome_iff_exists.mp
    (by decide : (run World.step start wrappedRun).isSome)
  have hfine := hall w (.run_any wrappedRun (.start ⟨0, rfl⟩) hw)
  have hlog : w.log = [.received (synAck 0) (patch (synAck 0) 36 [178, 88]),
      .sent syn wrappedSyn ⟨.linux, some 4294967196⟩, .expected 49153 .linux] := by
    rw [← logOf_eq hw]
    decide +kernel
  rw [hlog] at hfine
  obtain ⟨tcp, htcp, hstamp⟩ := Option.bind_eq_some_iff.mp
    (by decide : (segmentOf syn).bind Headed.stamp = some (100, 0))
  obtain ⟨tcp', htcp', hstamp'⟩ := Option.bind_eq_some_iff.mp
    (by decide : (segmentOf wrappedSyn).bind Headed.stamp = some (0, 0))
  obtain ⟨seg, hseg, hecho⟩ := Option.bind_eq_some_iff.mp
    (by decide : (segmentOf (synAck 0)).bind Headed.stamp = some (7, 0))
  obtain ⟨seg', hseg', hecho'⟩ := Option.bind_eq_some_iff.mp
    (by decide : (segmentOf (patch (synAck 0) 36 [178, 88])).bind Headed.stamp =
      some (7, 0))
  have hport : (segmentOf syn).map Headed.srcPort = (segmentOf (synAck 0)).map Headed.dstPort := by
    decide
  rw [htcp, hseg] at hport
  have hback := hfine.1.2 syn wrappedSyn _ List.mem_cons_self tcp tcp' seg seg' htcp htcp'
    hseg hseg' (Option.some.inj hport) 100 0 0 0 7 hstamp hstamp' hecho
  -- the stack is told 0, and has sent 100
  exact absurd (hecho'.symm.trans hback) (by decide)

end FuryBrowser.SynShape
