import FuryBrowser.AgentDisk
import FuryBrowser.ByteFields
import FuryBrowser.OptionList
import Mathlib.Algebra.GroupWithZero.Nat
import Mathlib.Logic.Function.Basic

/-!
# The shape of a SYN

Every packet of a tunnel's stack passes a shaper on its way out, which makes it look like a packet
of the persona's system: the lifetime, the number, and of a SYN the options and the window. The
timestamps of a connection are moved by an offset of its own on the way out, and moved back on the
way in.
-/

namespace FuryBrowser.SynShape

open AgentDisk ByteFields InternetChecksum OptionList

section Systems

/-- `Os`, the systems a persona can claim. -/
inductive Os
  | windows
  | macOs
  | linux
  deriving DecidableEq, Repr

/-- `Opt`. -/
inductive Opt
  | mss
  | nop
  | ws
  | sok
  | ts
  /-- End of list, then zeros to the next multiple of four. -/
  | eol
  deriving DecidableEq, Repr

/-- `SynWindow`. -/
inductive SynWindow
  | fixed (w : ℕ)
  /-- The largest multiple of the MSS that fits in 16 bits. -/
  | mssMultiple
  deriving DecidableEq, Repr

/-- `IpId`. -/
inductive IpId
  | zero
  /-- One counter for the whole host. -/
  | global
  /-- A counter per connection. -/
  | perFlow
  deriving DecidableEq, Repr

/-- `Shape`. -/
structure Shape where
  ttl : UInt8
  synWindow : SynWindow
  layout : List Opt
  ipId : IpId

/-- `WINDOWS`. -/
def windows : Shape := ⟨128, .fixed 65535, [.mss, .nop, .ws, .nop, .nop, .sok], .global⟩

/-- `MACOS`. -/
def macOs : Shape := ⟨64, .fixed 65535, [.mss, .nop, .ws, .nop, .nop, .ts, .sok, .eol], .zero⟩

/-- `LINUX`. -/
def linux : Shape := ⟨64, .mssMultiple, [.mss, .sok, .ts, .nop, .ws], .perFlow⟩

/-- `shape`. -/
def Os.shape : Os → Shape
  | .windows => SynShape.windows
  | .macOs => SynShape.macOs
  | .linux => SynShape.linux

/-- `timestamps`: the system offers them. -/
def Os.timestamps (os : Os) : Bool := os.shape.layout.contains .ts

end Systems

section Packets

/-- A buffer that begins with the twenty bytes an IPv4 header and a TCP header have at least, so
that a field of these can be read. -/
@[ext] structure Headed where
  front : Bytes
  rest : Bytes
  front_length : front.length = 20
  deriving DecidableEq

/-- The buffer. -/
def Headed.bytes (b : Headed) : Bytes := b.front ++ b.rest

/-- A buffer, if it is long enough. -/
def headed (b : Bytes) : Option Headed :=
  if h : 20 ≤ b.length then
    some ⟨b.take 20, b.drop 20, by rw [List.length_take, Nat.min_eq_left h]⟩
  else none

/-- A byte of the front. -/
def Headed.byte (b : Headed) (i : Fin 20) : UInt8 := b.front.getD i 0

/-- Two of them. -/
def Headed.word (b : Headed) (i j : Fin 20) : ℕ := ByteFields.word (b.byte i) (b.byte j)

/-- `header_len` of IPv4, from the first byte. -/
def headerLen (b : UInt8) : ℕ := b.toNat % 16 * 4

/-- `Ipv4Packet`, checked: the header is within the total length, and that within the buffer. -/
structure Ipv4Packet extends Headed where
  header_le : headerLen (toHeaded.byte 0) ≤ toHeaded.word 2 3
  total_le : toHeaded.word 2 3 ≤ toHeaded.bytes.length

/-- `Ipv4Packet::new_checked`. -/
def Ipv4Packet.newChecked (b : Bytes) : Option Ipv4Packet :=
  (headed b).bind fun ip =>
    if h : headerLen (ip.byte 0) ≤ ip.word 2 3 ∧ ip.word 2 3 ≤ ip.bytes.length then
      some ⟨ip, h.1, h.2⟩
    else none

namespace Ipv4Packet

variable (ip : Ipv4Packet)

/-- `header_len`. -/
def headerLen : ℕ := SynShape.headerLen (ip.byte 0)

/-- `total_len`. -/
def totalLen : ℕ := ip.word 2 3

/-- `next_header`, and whether it is TCP. -/
def isTcp : Bool := ip.byte 9 = 6

/-- `src_addr`. -/
def srcAddr : Bytes := (ip.bytes.drop 12).take 4

/-- `dst_addr`. -/
def dstAddr : Bytes := (ip.bytes.drop 16).take 4

/-- The packet, without what is behind it in the buffer. -/
def truncated : Bytes := ip.bytes.take (min ip.totalLen ip.bytes.length)

/-- The TCP segment, if all of its fixed header is there. -/
def segment : Option Headed :=
  if ip.isTcp && ip.headerLen + 20 ≤ min ip.totalLen ip.bytes.length then
    headed (ip.truncated.drop ip.headerLen)
  else none

end Ipv4Packet

/-- A write into a buffer; `none` where the code panics. -/
def write (b : Bytes) (i : ℕ) (bs : Bytes) : Option Bytes :=
  if i + bs.length ≤ b.length then some (patch b i bs) else none

/-- `checksum::data`. -/
def data (b : Bytes) : ℕ := fold (wordSum b)

/-- `checksum::combine`. -/
def combine (sums : List ℕ) : ℕ := fold sums.sum

/-- `checksum::pseudo_header` of a TCP segment. -/
def pseudoHeader (src dst : Bytes) (length : ℕ) : ℕ :=
  combine [data src, data dst, data ([0, 6] ++ bytes16 length)]

/-- The sum of a TCP segment that `verify_checksum` wants to be all ones. -/
def tcpSum (src dst tcp : Bytes) : ℕ := combine [pseudoHeader src dst tcp.length, data tcp]

/-- `fill_checksum` of IPv4. -/
def fillIp (packet : Bytes) : Option Bytes :=
  (write packet 10 (bytes16 0)).bind fun packet =>
    packet.head?.bind fun b =>
      if packet.length < headerLen b then none
      else write packet 10 (bytes16 (65535 - data (packet.take (headerLen b))))

/-- What is written into every packet that goes out. -/
def fillHeader (packet : Bytes) (ttl : UInt8) (ident : UInt16) : Option Bytes :=
  (write packet 8 [ttl]).bind fun packet =>
    (write packet 4 (bytes16 ident.toNat)).bind fillIp

end Packets

namespace Headed

variable (tcp : Headed)

/-- The source port. -/
def srcPort : ℕ := tcp.word 0 1

/-- The destination port. -/
def dstPort : ℕ := tcp.word 2 3

/-- A SYN that opens a connection. -/
def isSyn : Bool := tcp.byte 13 &&& 0x02 ≠ 0 && tcp.byte 13 &&& 0x10 = 0

/-- The data offset, in bytes. -/
def dataOffset : ℕ := (tcp.byte 12).toNat / 16 * 4

/-- How long the options are, the data offset clamped. -/
def optionsLen : ℕ := max 20 (min tcp.dataOffset tcp.bytes.length) - 20

/-- The options, as they are. -/
def region : Bytes := tcp.rest.take tcp.optionsLen

/-- What the segment carries. -/
def payload : Bytes := tcp.rest.drop tcp.optionsLen

/-- `options`. -/
def options : List (UInt8 × Bytes) := entries tcp.region

/-- `TcpPacket::new_checked`: all of the header is there. -/
def complete : Bool := 20 ≤ tcp.dataOffset && tcp.dataOffset ≤ tcp.bytes.length

/-- Something else in the place of the checksum. -/
def withChecksum (n : ℕ) : Headed :=
  ⟨patch tcp.front 16 (bytes16 n), tcp.rest, by
    have hfront := tcp.front_length
    rw [length_patch (by rw [length_bytes16]; omega), hfront]⟩

/-- `fill_checksum`. -/
def fill (src dst : Bytes) : Headed :=
  if tcp.complete then
    tcp.withChecksum (65535 - tcpSum src dst (tcp.withChecksum 0).bytes)
  else tcp

end Headed

section Rewriting

/-- The first option of a kind. -/
def find (opts : List (UInt8 × Bytes)) (kind : UInt8) : Option Bytes :=
  (opts.find? (·.1 = kind)).map (·.2)

/-- Zeros to the next multiple of four. -/
def pad (out : Bytes) : Bytes := out ++ List.replicate ((4 - out.length % 4) % 4) 0

/-- One step of the layout. -/
def place (opts : List (UInt8 × Bytes)) (out : Bytes) : Opt → Bytes
  | .mss =>
    match (find opts 2).filter (·.length = 2) with
    | some mss => out ++ ([2, 4] ++ bytes16 (u16 mss))
    | none => out
  | .nop => out ++ [1]
  -- the value the stack put there, however long it is
  | .ws =>
    match find opts 3 with
    | some ws => out ++ ([3, 3] ++ ws)
    | none => out
  | .sok => if (find opts 4).isSome then out ++ [4, 2] else out
  | .ts =>
    match (find opts 8).filter (·.length = 8) with
    | some ts => out ++ ([8, 10] ++ ts)
    | none => out
  | .eol => pad (out ++ [0])

theorem length_le_place (opts : List (UInt8 × Bytes)) (out : Bytes) (opt : Opt) :
    out.length ≤ (place opts out opt).length := by
  cases opt <;> simp only [place, pad] <;> (try split) <;>
    simp only [List.length_append, le_refl] <;> omega

theorem length_le_foldl_place (opts : List (UInt8 × Bytes)) (layout : List Opt) (out : Bytes) :
    out.length ≤ (layout.foldl (place opts) out).length := by
  induction layout generalizing out with
  | nil => exact Nat.le_refl _
  | cons opt layout ih => exact Nat.le_trans (length_le_place opts out opt) (ih _)

/-- The fixed header and the options as the system lays them out. -/
def laid (tcp : Headed) (shape : Shape) : Bytes :=
  pad (shape.layout.foldl (place tcp.options) tcp.front)

theorem le_length_laid (tcp : Headed) (shape : Shape) : 20 ≤ (laid tcp shape).length := by
  have hfold := length_le_foldl_place tcp.options shape.layout tcp.front
  rw [tcp.front_length] at hfold
  rw [laid, pad, List.length_append]
  omega

/-- The window of the SYN. -/
def synWindow (tcp : Headed) (shape : Shape) : ℕ :=
  min (match shape.synWindow with
    | .fixed w => w
    | .mssMultiple =>
      match (find tcp.options 2).filter (·.length = 2) with
      | some mss => if 0 < u16 mss then 65535 / u16 mss * u16 mss else tcp.word 14 15
      | none => tcp.word 14 15) (tcp.word 14 15)

/-- The front of the SYN: its length, its window and no checksum yet. -/
def synFront (tcp : Headed) (shape : Shape) : Bytes :=
  patch (patch (patch ((laid tcp shape).take 20) 12
    [UInt8.ofNat ((laid tcp shape).length / 4 * 16 + (tcp.byte 12).toNat % 16)])
    14 (bytes16 (synWindow tcp shape))) 16 (bytes16 0)

theorem length_synFront (tcp : Headed) (shape : Shape) : (synFront tcp shape).length = 20 := by
  have htake : ((laid tcp shape).take 20).length = 20 := by
    rw [List.length_take, Nat.min_eq_left (le_length_laid tcp shape)]
  have hone (l : Bytes) (hl : l.length = 20) (b : UInt8) : (patch l 12 [b]).length = 20 := by
    rw [length_patch (by rw [hl]; exact Nat.le_add_left 13 7), hl]
  have htwo (l : Bytes) (hl : l.length = 20) (i n : ℕ) (hi : i ≤ 18) :
      (patch l i (bytes16 n)).length = 20 := by
    rw [length_patch (by rw [hl, length_bytes16]; omega), hl]
  exact htwo _ (htwo _ (hone _ htake _) 14 _ (by decide)) 16 0 (by decide)

/-- `rebuild_syn`. -/
def rebuildSyn (tcp : Headed) (shape : Shape) : Headed :=
  ⟨synFront tcp shape, (laid tcp shape).drop 20, length_synFront tcp shape⟩

/-- `nop_align_lone_timestamp`. -/
def nopAlign (tcp : Headed) : Headed :=
  if tcp.dataOffset = 32 ∧ 32 ≤ tcp.bytes.length ∧ tcp.rest.take 2 = [8, 10] ∧
      (tcp.rest.drop 10).take 2 = [0, 0] then
    { tcp with rest := patch (patch tcp.rest 2 (tcp.rest.take 10)) 0 [1, 1] }
  else tcp

/-- A timestamp option. -/
def isTs (kind : UInt8) (body : Bytes) : Bool := kind = 8 && body.length = 8

/-- What it carries, moved; an echo of zero means that there is nothing to echo yet. -/
def moved (toVal toEcr : UInt32) (body : Bytes) : Bytes :=
  bytes32 (u32 (body.take 4) + toVal) ++
    bytes32 (if u32 (body.drop 4) = 0 then 0 else u32 (body.drop 4) + toEcr)

/-- `shift_timestamp`; `none` when there is no timestamp. -/
def shiftTimestamp (tcp : Headed) (toVal toEcr : UInt32) : Option Headed :=
  (rewrite isTs (moved toVal toEcr) tcp.region).map fun region =>
    { tcp with rest := region ++ tcp.payload }

end Rewriting

section Shapers

/-- `Flow`. -/
structure Flow where
  os : Os
  nextId : UInt16
  tsOffset : UInt32
  deriving DecidableEq, Repr

/-- `Shaper`. -/
structure Shaper where
  /-- The system each local port was dialled for, until its SYN goes out. -/
  expected : ℕ → Option Os
  /-- The connections, by their local port. -/
  flows : ℕ → Option Flow
  /-- The counter of the host. -/
  globalId : UInt16

/-- `Shaper::new`. -/
def Shaper.new (globalId : UInt16) : Shaper := ⟨fun _ => none, fun _ => none, globalId⟩

/-- What `rand::random` gives for a packet. -/
structure Draws where
  nextId : UInt16
  tsOffset : UInt32
  ident : UInt16
  deriving DecidableEq, Repr

namespace Shaper

variable (s : Shaper)

/-- `expect`. -/
def expect (port : ℕ) (os : Os) : Shaper :=
  { s with expected := Function.update s.expected port (some os) }

/-- A SYN goes out. One that is sent again keeps the flow it has. -/
def dial (port : ℕ) (d : Draws) : Shaper :=
  match s.expected port with
  | some os => { s with
      expected := Function.update s.expected port none
      flows := Function.update s.flows port (some ⟨os, d.nextId, d.tsOffset⟩) }
  | none => s

/-- A segment goes out. -/
def start (tcp : Headed) (d : Draws) : Shaper := if tcp.isSyn then s.dial tcp.srcPort d else s

/-- The system of a port. -/
def osAt (port : ℕ) : Os := (s.flows port).elim .linux (·.os)

/-- How far the timestamps of a port are moved on their way out, if they are. -/
def movedBy (port : ℕ) : Option UInt32 :=
  (s.flows port).bind fun flow => if flow.os.timestamps then some flow.tsOffset else none

/-- The number of a packet. -/
def number (os : Os) (port : Option ℕ) (ident : UInt16) : Shaper × UInt16 :=
  match os.shape.ipId with
  | .zero => (s, 0)
  | .global => ({ s with globalId := s.globalId + 1 }, s.globalId + 1)
  | .perFlow =>
    match port with
    | none => (s, ident)
    | some port =>
      match s.flows port with
      | none => (s, ident)
      | some flow =>
        ({ s with flows := Function.update s.flows port (some { flow with nextId :=
          flow.nextId + 1 }) }, flow.nextId)

end Shaper

/-- The segment in its packet, as the system would send it. -/
def reshape (os : Os) (packet : Bytes) (ip : Ipv4Packet) (tcp : Headed) : Bytes :=
  if tcp.isSyn then
    let rebuilt := packet.take ip.headerLen ++ (rebuildSyn tcp os.shape).bytes
    patch rebuilt 2 (bytes16 rebuilt.length)
  else if os.timestamps then packet.take ip.headerLen ++ (nopAlign tcp).bytes
  else packet

/-- The timestamp of a packet is moved; `none` where the code panics. -/
def move (offset : Option UInt32) (headerLen : ℕ) (packet : Bytes) : Option Bytes :=
  match offset with
  | none => some packet
  | some offset =>
    (headed (packet.drop headerLen)).map fun tcp =>
      packet.take headerLen ++ ((shiftTimestamp tcp offset 0).getD tcp).bytes

/-- The checksum of the segment in its packet. -/
def refill (ip : Ipv4Packet) (packet : Bytes) : Bytes :=
  if ip.isTcp then
    match headed (packet.drop ip.headerLen) with
    | some tcp => packet.take ip.headerLen ++ (tcp.fill ip.srcAddr ip.dstAddr).bytes
    | none => packet
  else packet

namespace Shaper

variable (s : Shaper)

/-- `outbound`; `none` where the code panics. -/
def outbound (d : Draws) (packet : Bytes) : Option (Shaper × Bytes) :=
  match Ipv4Packet.newChecked packet with
  | none => some (s, packet)
  | some ip =>
    match ip.segment with
    | none =>
      let (s, ident) := s.number .linux none d.ident
      (fillHeader ip.truncated Os.linux.shape.ttl ident).map fun packet => (s, refill ip packet)
    | some tcp =>
      let s := s.start tcp d
      let os := s.osAt tcp.srcPort
      (move (s.movedBy tcp.srcPort) ip.headerLen (reshape os ip.truncated ip tcp)).bind
        fun packet =>
          let (s, ident) := s.number os (some tcp.srcPort) d.ident
          (fillHeader packet os.shape.ttl ident).map fun packet => (s, refill ip packet)

/-- A segment that comes in. -/
def answered (ip : Ipv4Packet) (tcp : Headed) : Headed :=
  match s.flows tcp.dstPort with
  | none => tcp
  | some flow =>
    if flow.tsOffset = 0 then tcp
    else
      match shiftTimestamp tcp 0 (-flow.tsOffset) with
      | none => tcp
      | some tcp => tcp.fill ip.srcAddr ip.dstAddr

/-- `inbound`. -/
def inbound (packet : Bytes) : Bytes :=
  match Ipv4Packet.newChecked packet with
  | none => packet
  | some ip =>
    match ip.segment with
    | none => packet
    | some tcp =>
      packet.take ip.headerLen ++ (s.answered ip tcp).bytes ++
        packet.drop (min ip.totalLen packet.length)

end Shaper

end Shapers

end FuryBrowser.SynShape
