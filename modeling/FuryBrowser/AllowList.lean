import FuryBrowser.LocalNetworks

/-!
# The allowlist of a policy

An entry is an address or a network, and a client is admitted from an address of it. A client's
address is written in one of two ways, since one of the older version may arrive in the form that
the newer one has for it; what an address is, is the same in both.
-/

namespace FuryBrowser.AllowList

open TextBytes TextLines IpAddress AddressBlocks
open DomainLists (isIpv4 toIpv4Mapped_iff)

section Entries

/-- The longest prefix of an address. -/
def widest (addr : IpAddr) : ℕ := if isIpv4 addr then 32 else 128

/-- What stands before and after the slash, if there is one. -/
def readEntry (s : Text) : Option (IpAddr × ℕ) :=
  match splitOnce '/' s with
  | some (a, b) => do
    let addr ← parseIp a
    let bits ← parseUnsigned 255 b
    some (addr, bits)
  | none => do
    let addr ← parseIp s
    some (addr, widest addr)

/-- `parse_cidr`: the network and its prefix. -/
def parseCidr (s : Text) : Option (IpAddr × ℕ) :=
  (readEntry (trimText s)).filter fun entry => entry.2 ≤ widest entry.1

/-- `MAX << (w - bits)`, or nothing where the difference or the shift overflows. -/
def maskOf (w bits : ℕ) : Option (BitVec w) :=
  if bits = 0 then some 0
  else if w < bits ∨ w ≤ w - bits then none
  else some (BitVec.allOnes w <<< (w - bits))

/-- Both numbers are the same under the mask. -/
def underMask {w : ℕ} (bits : ℕ) (n a : BitVec w) : Option Bool :=
  (maskOf w bits).map fun mask => decide (n &&& mask = a &&& mask)

/-- `cidr_contains`, of a client's address of the older version. -/
def cidrContainsFour (entry : Text) (a : BitVec 32) : Option Bool :=
  match parseCidr entry with
  | none => some false
  | some (.v4 n, bits) => underMask bits n a
  | some (.v6 _, _) => some false

/-- `cidr_contains`, or nothing where a shift overflows. -/
def cidrContains (entry : Text) : IpAddr → Option Bool
  | .v4 a => cidrContainsFour entry a
  | .v6 a =>
    match parseCidr entry with
    | none => some false
    | some (.v6 n, bits) => underMask bits n a
    -- one of the older version arriving in its mapped form
    | some (.v4 _, _) => ((toIpv4Mapped a).map (cidrContainsFour entry)).getD (some false)

end Entries

section Meaning

/-- An address as one of the newer version. -/
def mapped : IpAddr → BitVec 128
  | .v4 a => .ofNat 128 (65535 * 2 ^ 32 + a.toNat)
  | .v6 a => a

/-- How many leading bits of it a prefix is about. -/
def mappedPrefix (net : IpAddr) (bits : ℕ) : ℕ := if isIpv4 net then 96 + bits else bits

/-- The address and the network agree on the bits of the prefix. -/
def Agrees (net : IpAddr) (bits : ℕ) (ip : IpAddr) : Prop :=
  ∀ i < mappedPrefix net bits, (mapped net).getMsbD i = (mapped ip).getMsbD i

/-- Whether an entry names an address is what its bits say, in each of its spellings. -/
structure Matched (entry : Text) (net : IpAddr) (bits : ℕ) (ip : IpAddr) : Prop where
  /-- Nothing overflows, and the answer is right. -/
  right : ∃ answer, cidrContains entry ip = some answer ∧ (answer = true ↔ Agrees net bits ip)
  /-- The other spelling is answered alike. -/
  alike : ∀ other, mapped other = mapped ip → cidrContains entry other = cidrContains entry ip

/-- A network of the newer version that contains an address of the older one. -/
structure Crossed (net : IpAddr) (bits : ℕ) (ip : IpAddr) : Prop where
  newer : isIpv4 net = false
  older : ∃ a, mapped ip = mapped (.v4 a)
  agrees : Agrees net bits ip

end Meaning

section Shifts

variable {w bits : ℕ} {entry : Text} {net ip : IpAddr}

/-- A prefix that is accepted is no longer than the address. -/
theorem parseCidr_bits (h : parseCidr entry = some (net, bits)) : bits ≤ widest net :=
  of_decide_eq_true (Option.filter_eq_some_iff.mp h).2

/-- No prefix up to the width makes a shift overflow. -/
theorem maskOf_eq (h : bits ≤ w) : maskOf w bits = some (leadingMask w (w - bits)) := by
  unfold maskOf
  split
  · rename_i hzero
    rw [hzero, leadingMask, Nat.sub_zero, BitVec.shiftLeft_eq_zero (Nat.le_refl w)]
    rfl
  · rename_i hpos
    rw [if_neg (by omega)]
    rfl

theorem underMask_eq (h : bits ≤ w) (n a : BitVec w) :
    underMask bits n a = some (decide (∀ i < bits, n.getMsbD i = a.getMsbD i)) := by
  have hlow : w - (w - bits) = bits := by omega
  have hbits : n &&& leadingMask w (w - bits) = a &&& leadingMask w (w - bits) ↔
      ∀ i < bits, n.getMsbD i = a.getMsbD i := by
    rw [first_eq_iff, div_eq_iff_getMsbD n a (Nat.sub_le w bits), hlow]
  rw [underMask, maskOf_eq h, Option.map_some, decide_eq_decide.mpr hbits]

theorem toNat_mapped (a : BitVec 32) : (mapped (.v4 a)).toNat = 65535 * 2 ^ 32 + a.toNat := by
  have hlt := a.isLt
  rw [mapped, BitVec.toNat_ofNat]
  omega

theorem mapped_four (a : BitVec 128) (four : BitVec 32) :
    toIpv4Mapped a = some four ↔ a = mapped (.v4 four) := by
  rw [toIpv4Mapped_iff, ← BitVec.toNat_inj, toNat_mapped]

/-- The older version's bits stand at the end of the mapped form. -/
theorem agrees_four (h : bits ≤ 32) (n a : BitVec 32) :
    Agrees (.v4 n) bits (.v4 a) ↔ ∀ i < bits, n.getMsbD i = a.getMsbD i := by
  have hlow : 32 - (32 - bits) = bits := by omega
  have hhigh : 128 - (32 - bits) = 96 + bits := by omega
  have hfour := div_eq_iff_getMsbD n a (Nat.sub_le 32 bits)
  have hsix := div_eq_iff_getMsbD (mapped (.v4 n)) (mapped (.v4 a))
    (by omega : 32 - bits ≤ 128)
  have hsplit (b : BitVec 32) : (mapped (.v4 b)).toNat / 2 ^ (32 - bits) =
      65535 * 2 ^ bits + b.toNat / 2 ^ (32 - bits) := by
    have hpow : 2 ^ 32 = 2 ^ (32 - bits) * 2 ^ bits := by
      rw [← Nat.pow_add]
      congr 1
      omega
    have hmul : 65535 * 2 ^ 32 = 2 ^ (32 - bits) * (65535 * 2 ^ bits) := by
      rw [hpow, Nat.mul_left_comm]
    rw [toNat_mapped, hmul, Nat.mul_add_div (Nat.two_pow_pos _)]
  rw [hsplit, hsplit, Nat.add_left_cancel_iff, hhigh] at hsix
  rw [hlow] at hfour
  exact (hsix.symm.trans hfour)

/-- Nothing but a mapped address agrees with a network of the older version. -/
theorem agrees_mapped (h : bits ≤ 32) (n : BitVec 32) {a : BitVec 128}
    (hagrees : Agrees (.v4 n) bits (.v6 a)) : ∃ four, toIpv4Mapped a = some four := by
  have hhigh : 128 - (32 - bits) = 96 + bits := by omega
  have hsix := div_eq_iff_getMsbD (mapped (.v4 n)) a (by omega : 32 - bits ≤ 128)
  rw [hhigh] at hsix
  have hdiv := div_eq_of_div_eq (by omega : 32 - bits ≤ 32) (hsix.mpr hagrees)
  have hlt := n.isLt
  rw [toNat_mapped] at hdiv
  refine ⟨.ofNat 32 a.toNat, if_pos ?_⟩
  omega

end Shifts

section Matching

variable {bits : ℕ} {entry : Text} {net ip : IpAddr}

/-- What is answered of an address of the older version. -/
theorem cidrContains_four (h : parseCidr entry = some (net, bits)) (a : BitVec 32) :
    cidrContains entry (.v4 a) =
      some (isIpv4 net && decide (∀ i < mappedPrefix net bits,
        (mapped net).getMsbD i = (mapped (.v4 a)).getMsbD i)) := by
  have hbits := parseCidr_bits h
  rw [cidrContains, cidrContainsFour, h]
  cases net with
  | v4 n =>
    have hle : bits ≤ 32 := hbits
    dsimp only
    rw [underMask_eq hle, ← decide_eq_decide.mpr (agrees_four hbits n a)]
    rfl
  | v6 n => rfl

/-- What is answered of one of the newer version. -/
theorem cidrContains_six (h : parseCidr entry = some (net, bits)) (a : BitVec 128) :
    ∃ answer, cidrContains entry (.v6 a) = some answer ∧
      (answer = true ↔ Agrees net bits (.v6 a)) := by
  have hbits := parseCidr_bits h
  rw [cidrContains, h]
  cases net with
  | v4 n =>
    cases hfour : toIpv4Mapped a with
    | none =>
      refine ⟨false, rfl, iff_of_false Bool.false_ne_true fun hagrees => ?_⟩
      obtain ⟨four, hsome⟩ := agrees_mapped hbits n hagrees
      rw [hfour] at hsome
      cases hsome
    | some four =>
      obtain rfl := (mapped_four a four).mp hfour
      refine ⟨_, cidrContains_four h four, ?_⟩
      rw [Bool.and_eq_true, decide_eq_true_eq]
      exact and_iff_right rfl
  | v6 n =>
    have hle : bits ≤ 128 := hbits
    exact ⟨_, underMask_eq hle n a, decide_eq_true_iff⟩

theorem agrees_congr {other : IpAddr} (h : mapped other = mapped ip) :
    Agrees net bits other ↔ Agrees net bits ip := by
  rw [Agrees, Agrees, h]

/-- Where the network is not of the newer version around an address of the older one, the answer
is right. -/
theorem right_of_not_crossed (h : parseCidr entry = some (net, bits))
    (hcrossed : ¬Crossed net bits ip) :
    ∃ answer, cidrContains entry ip = some answer ∧ (answer = true ↔ Agrees net bits ip) := by
  cases ip with
  | v6 a => exact cidrContains_six h a
  | v4 a =>
    refine ⟨_, cidrContains_four h a, ?_⟩
    rw [Bool.and_eq_true, decide_eq_true_eq]
    refine ⟨And.right, fun hagrees => ⟨?_, hagrees⟩⟩
    by_contra hnewer
    exact hcrossed ⟨Bool.eq_false_iff.mpr hnewer, ⟨a, rfl⟩, hagrees⟩

end Matching

/-- An address is matched as its bits say, in both spellings, exactly unless the entry is a network
of the newer version that contains an address of the older one. -/
theorem matched_iff_not_crossed {entry : Text} {net : IpAddr} {bits : ℕ}
    (h : parseCidr entry = some (net, bits)) (ip : IpAddr) :
    Matched entry net bits ip ↔ ¬Crossed net bits ip := by
  constructor
  · rintro ⟨⟨answer, hanswer, hright⟩, halike⟩ ⟨hnewer, ⟨a, ha⟩, hagrees⟩
    have hfour := cidrContains_four h a
    rw [halike (.v4 a) ha.symm, hanswer, hnewer, Option.some_inj] at hfour
    rw [hright.mpr hagrees] at hfour
    cases hfour
  · intro hcrossed
    obtain ⟨answer, hanswer, hright⟩ := right_of_not_crossed h hcrossed
    refine ⟨⟨answer, hanswer, hright⟩, fun other hother => ?_⟩
    have hstill : ¬Crossed net bits other := fun hc =>
      hcrossed ⟨hc.newer, hother ▸ hc.older, (agrees_congr hother).mp hc.agrees⟩
    obtain ⟨answer', hanswer', hright'⟩ := right_of_not_crossed h hstill
    rw [hanswer', hanswer, Option.some_inj, Bool.eq_iff_iff, hright', hright]
    exact agrees_congr hother

theorem matched_iff_not_crossed_four :
    Matched "203.0.113.0/24".toList (.v4 (ofOctets 203 0 113 0)) 24 (.v4 (ofOctets 203 0 113 77)) ↔
      ¬Crossed (.v4 (ofOctets 203 0 113 0)) 24 (.v4 (ofOctets 203 0 113 77)) :=
  matched_iff_not_crossed (by decide) _

/-- A network in the mapped form admits none of the addresses it names. -/
theorem mapped_network_refuses : ¬∀ (entry : Text) (net : IpAddr) (bits : ℕ) (ip : IpAddr),
    parseCidr entry = some (net, bits) → Matched entry net bits ip := by
  intro hall
  have hparse : parseCidr "::ffff:203.0.113.0/120".toList =
      some (.v6 (mapped (.v4 (ofOctets 203 0 113 0))), 120) := by decide
  have hno : cidrContains "::ffff:203.0.113.0/120".toList (.v4 (ofOctets 203 0 113 9)) =
      some false := by decide
  obtain ⟨answer, hanswer, hright⟩ := (hall _ _ _ (.v4 (ofOctets 203 0 113 9)) hparse).right
  rw [hno, Option.some_inj] at hanswer
  have hagrees : Agrees (.v6 (mapped (.v4 (ofOctets 203 0 113 0)))) 120
      (.v4 (ofOctets 203 0 113 9)) := by
    unfold Agrees
    decide
  rw [← hanswer] at hright
  exact Bool.false_ne_true (hright.mpr hagrees)

end FuryBrowser.AllowList
