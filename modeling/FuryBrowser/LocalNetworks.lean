import FuryBrowser.AddressBlocks
import FuryBrowser.IpAddress
import FuryBrowser.DomainLists
import FuryBrowser.TextCuts

/-!
# What a list of the local network reaches

An entry names an address or a network, and is kept when the first and the last address of it are
private. Whatever is reached is private, since a block lies in one range when both its ends are in
ranges. An address written as one of the newer version is looked up as the older one it stands for;
an entry written so is kept as it is, and is never found.
-/

namespace FuryBrowser.DomainLists

open TextBytes TextLines TextCuts IpAddress AddressBlocks

section Ranges

variable {c k m n : ℕ}

/-- The private ranges of the older version, behind so many more leading bits. -/
def InFour (c n : ℕ) : Prop :=
  n / 2 ^ 24 = c * 2 ^ 8 + 10 ∨ n / 2 ^ 20 = c * 2 ^ 12 + 2753 ∨ n / 2 ^ 16 = c * 2 ^ 16 + 49320 ∨
    n / 2 ^ 22 = c * 2 ^ 10 + 401

theorem isPrivate_iff (a : BitVec 32) :
    (isPrivate a || isShared a) = true ↔ InFour 0 a.toNat := by
  have hlt := a.isLt
  have hzero : octet a 0 = a.toNat / 16777216 % 256 := rfl
  have hone : octet a 1 = a.toNat / 65536 % 256 := rfl
  simp only [isPrivate, isShared, InFour, hzero, hone, Bool.or_eq_true, Bool.and_eq_true,
    decide_eq_true_eq]
  omega

theorem isUniqueLocal_iff (a : BitVec 128) :
    isUniqueLocal a = true ↔ a.toNat / 2 ^ 121 = 126 := by
  have hmask : (leadingMask 16 9).toNat = 0xFE00 := by decide
  have hand := toNat_first (BitVec.ofNat 16 (segment a 0)) 9
  have hsegment : segment a 0 = a.toNat / 2 ^ 112 % 65536 := rfl
  have hlt := a.isLt
  rw [BitVec.toNat_and, hmask, BitVec.toNat_ofNat,
    Nat.mod_eq_of_lt (by rw [hsegment]; exact Nat.mod_lt _ (by decide))] at hand
  rw [isUniqueLocal, hand, hsegment, decide_eq_true_eq]
  omega

theorem toIpv4Mapped_iff (a : BitVec 128) (four : BitVec 32) :
    toIpv4Mapped a = some four ↔ a.toNat = 65535 * 2 ^ 32 + four.toNat := by
  have hlt := a.isLt
  have hfour := four.isLt
  unfold toIpv4Mapped
  split
  · rw [Option.some_inj, ← BitVec.toNat_inj, BitVec.toNat_ofNat]
    omega
  · constructor
    · rintro ⟨⟩
    · omega

theorem isPrivateNetwork_six (a : BitVec 128) : isPrivateNetwork (.v6 a) = true ↔
    InFour 65535 a.toNat ∨ a.toNat / 2 ^ 121 = 126 := by
  have hlt := a.isLt
  unfold isPrivateNetwork
  dsimp only
  cases hmapped : toIpv4Mapped a with
  | some four =>
    have heq := (toIpv4Mapped_iff a four).mp hmapped
    have hfour := four.isLt
    dsimp only
    rw [isPrivate_iff, InFour, InFour, heq]
    omega
  | none =>
    have hne : a.toNat / 2 ^ 32 ≠ 65535 := by
      unfold toIpv4Mapped at hmapped
      split at hmapped
      · cases hmapped
      · assumption
    dsimp only
    rw [isUniqueLocal_iff, InFour]
    omega

/-- A block that is longer than a range does not begin and end in it, nor begin in it and end in
another one. -/
theorem first_in_range {e v : ℕ} {P : ℕ → Prop} (hrange : n / 2 ^ k * 2 ^ k / 2 ^ e = v)
    (hlast : P (n / 2 ^ k * 2 ^ k + (2 ^ k - 1))) (h : n / 2 ^ k = m / 2 ^ k)
    (hlong : ∀ t p, 0 < p → t * 2 ^ (e + 1) / 2 ^ e = v →
      ¬P (t * 2 ^ (e + 1) + (2 ^ (e + 1) * p - 1))) : m / 2 ^ e = v := by
  by_cases hk : k ≤ e
  · exact (div_eq_of_div_eq hk h).symm.trans ((first_div hk n).symm.trans hrange)
  · obtain ⟨d, rfl⟩ : ∃ d, k = e + 1 + d := ⟨k - (e + 1), by omega⟩
    have hshift (q : ℕ) : q * 2 ^ (e + 1 + d) = q * 2 ^ d * 2 ^ (e + 1) := by
      rw [Nat.pow_add, Nat.mul_comm (2 ^ (e + 1)), Nat.mul_assoc]
    rw [hshift] at hrange hlast
    generalize n / 2 ^ (e + 1 + d) * 2 ^ d = t at hrange hlast
    rw [Nat.pow_add 2 (e + 1) d] at hlast
    exact absurd hlast (hlong t (2 ^ d) (Nat.pow_pos (by decide)) hrange)

/-- A block whose first and last addresses are in private ranges lies in one. -/
theorem inFour_block (hfirst : InFour c (n / 2 ^ k * 2 ^ k))
    (hlast : InFour c (n / 2 ^ k * 2 ^ k + (2 ^ k - 1))) (h : n / 2 ^ k = m / 2 ^ k) :
    InFour c m := by
  rcases hfirst with hten | hseventeen | hnineteen | hshared
  · refine .inl (first_in_range hten hlast h fun t p hp ht hend => ?_)
    unfold InFour at hend
    omega
  · refine .inr (.inl (first_in_range hseventeen hlast h fun t p hp ht hend => ?_))
    omega
  · refine .inr (.inr (.inl (first_in_range hnineteen hlast h fun t p hp ht hend => ?_)))
    unfold InFour at hend
    omega
  · refine .inr (.inr (.inr (first_in_range hshared hlast h fun t p hp ht hend => ?_)))
    omega

theorem inSix_block (hfirst : InFour 65535 (n / 2 ^ k * 2 ^ k) ∨ n / 2 ^ k * 2 ^ k / 2 ^ 121 = 126)
    (hlast : InFour 65535 (n / 2 ^ k * 2 ^ k + (2 ^ k - 1)) ∨
      (n / 2 ^ k * 2 ^ k + (2 ^ k - 1)) / 2 ^ 121 = 126)
    (h : n / 2 ^ k = m / 2 ^ k) : InFour 65535 m ∨ m / 2 ^ 121 = 126 := by
  rcases hfirst with hfirst | hfirst
  · by_cases hsmall : k ≤ 32
    · refine .inl (inFour_block hfirst (hlast.resolve_right fun hunique => ?_) h)
      have hsame := (first_div hsmall n).trans (last_div hsmall n).symm
      unfold InFour at hfirst
      omega
    · -- The block would end in more zeros than its first address does.
      obtain ⟨d, rfl⟩ : ∃ d, k = 33 + d := ⟨k - 33, by omega⟩
      rw [Nat.pow_add, Nat.mul_left_comm, Nat.mul_comm (2 ^ 33)] at hfirst
      generalize n / (2 ^ 33 * 2 ^ d) * 2 ^ d = t at hfirst
      unfold InFour at hfirst
      omega
  · refine .inr (first_in_range (P := fun x => InFour 65535 x ∨ x / 2 ^ 121 = 126) hfirst hlast h
      fun t p hp ht hend => ?_)
    unfold InFour at hend
    omega

end Ranges

section Entries

/-- The entries of a list of the local network. -/
def localEntries (text : Text) : List Text :=
  ((listLines text).filter fun line => !isDirective line).map fun line => (words line).headD []

/-- A list of the local network. -/
def isLocalList (text : Text) : Bool := (listLines text).any fun line => lowerText line = localMark

/-- An address, between brackets or not. -/
def readHost (host : Text) : Option IpAddr :=
  parseIp (trimEndMatches ']' (trimStartMatches '[' host))

/-- The address that this is a spelling of. -/
def canonical : IpAddr → IpAddr
  | .v4 a => .v4 a
  | .v6 a => ((toIpv4Mapped a).map IpAddr.v4).getD (.v6 a)

/-- Two addresses of a version, of which so many leading bits are the same. -/
def Agree (bits : ℕ) : IpAddr → IpAddr → Prop
  | .v4 a, .v4 b => a.toNat / 2 ^ (32 - bits) = b.toNat / 2 ^ (32 - bits)
  | .v6 a, .v6 b => a.toNat / 2 ^ (128 - bits) = b.toNat / 2 ^ (128 - bits)
  | _, _ => False

/-- The address is one of those that an entry names. -/
def Denotes (entry : Text) (ip : IpAddr) : Prop :=
  ∃ addr bits base, addressAndBits entry = some (addr, bits) ∧ readHost addr = some base ∧
    Agree bits base ip

/-- An entry of the list that is kept as a network. -/
def Accepted (text entry : Text) : Prop := entry ∈ localEntries text ∧ (parseNet entry).isSome

/-- The list reaches exactly the private addresses its entries name, in each spelling. -/
structure Exact (text : Text) : Prop where
  /-- What is reached is private. -/
  sound : ∀ host ip, readHost host = some ip → (Blocklist.parse text).reachedLocally host = true →
    isPrivateNetwork ip = true
  /-- What an entry names is reached. -/
  complete : ∀ entry, Accepted text entry → ∀ ip, Denotes entry ip → isPrivateNetwork ip = true →
    ∀ host other, readHost host = some other → canonical other = canonical ip →
      (Blocklist.parse text).reachedLocally host = true

/-- What an entry names in the newer version's spelling, an entry names in the older one's. -/
def Covered (text : Text) : Prop :=
  ∀ entry, Accepted text entry → ∀ a four, Denotes entry (.v6 a) → toIpv4Mapped a = some four →
    ∃ other, Accepted text other ∧ Denotes other (.v4 four)

end Entries

section Matching

variable {text entry host : Text} {ip base net : IpAddr} {bits : ℕ}

/-- An address that is read as it stands is read where brackets may be, too. -/
theorem readHost_of_parseIp (h : parseIp host = some ip) : readHost host = some ip := by
  have hnone {c : Char} (hc : isAddressMark c = false) : c ∉ host := fun hin => by
    rw [parseIp_marks h c hin] at hc
    cases hc
  rw [readHost, trimStartMatches_of_notMem (hnone (by decide)),
    trimEndMatches_of_notMem (hnone (by decide)), h]

theorem boundsOf_eq {w : ℕ} (a : BitVec w) (bits : ℕ) : boundsOf w a bits =
    (a &&& leadingMask w (w - bits),
      a &&& leadingMask w (w - bits) ||| ~~~leadingMask w (w - bits)) := by
  have hmask : (if bits = 0 then 0 else BitVec.allOnes w <<< (w - bits)) =
      leadingMask w (w - bits) := by
    split
    · rename_i hzero
      rw [hzero, leadingMask, Nat.sub_zero]
      exact (BitVec.shiftLeft_eq_zero (Nat.le_refl w)).symm
    · rfl
  rw [boundsOf, hmask]

theorem inNet_canonical : inNet ip net bits =
    (isIpv4 (canonical ip) = isIpv4 net && (netBounds (canonical ip) bits).1 = net) := by
  cases ip <;> rfl

/-- A network is met where the older spelling agrees with what it was made of. -/
theorem inNet_iff :
    inNet ip (netBounds base bits).1 bits = true ↔ Agree bits base (canonical ip) := by
  rw [inNet_canonical]
  generalize canonical ip = shown
  cases base with
  | v4 b =>
    cases shown with
    | v4 a =>
      simp only [netBounds, isIpv4, boundsOf_eq, Agree, Bool.and_eq_true, decide_eq_true_eq,
        true_and, IpAddr.v4.injEq, first_eq_iff]
      exact ⟨Eq.symm, Eq.symm⟩
    | v6 a => simp [netBounds, isIpv4, Agree]
  | v6 b =>
    cases shown with
    | v4 a => simp [netBounds, isIpv4, Agree]
    | v6 a =>
      simp only [netBounds, isIpv4, boundsOf_eq, Agree, Bool.and_eq_true, decide_eq_true_eq,
        true_and, IpAddr.v6.injEq, first_eq_iff]
      exact ⟨Eq.symm, Eq.symm⟩

theorem parseNet_spec (h : parseNet entry = some (net, bits)) :
    ∃ addr base, addressAndBits entry = some (addr, bits) ∧ readHost addr = some base ∧
      net = (netBounds base bits).1 ∧ bits ≤ (if isIpv4 base then 32 else 128) ∧
      isPrivateNetwork (netBounds base bits).1 = true ∧
      isPrivateNetwork (netBounds base bits).2 = true := by
  obtain ⟨⟨addr, n⟩, haddr, h⟩ := Option.bind_eq_some_iff.mp h
  obtain ⟨base, hbase, h⟩ := Option.bind_eq_some_iff.mp h
  split at h
  rename_i first last hbounds
  by_cases hwide : (if isIpv4 base then 32 else 128) < n
  · rw [if_pos hwide] at h
    cases h
  · rw [if_neg hwide] at h
    by_cases hprivate : (isPrivateNetwork first && isPrivateNetwork last) = true
    · rw [if_pos hprivate] at h
      cases h
      rw [Bool.and_eq_true] at hprivate
      refine ⟨addr, base, haddr, hbase, ?_, Nat.not_lt.mp hwide, ?_, ?_⟩
      · rw [hbounds]
      · rw [hbounds]
        exact hprivate.1
      · rw [hbounds]
        exact hprivate.2
    · rw [if_neg hprivate] at h
      cases h

/-- A network with private ends is private. -/
theorem isPrivateNetwork_agree (hbits : bits ≤ (if isIpv4 base then 32 else 128))
    (hfirst : isPrivateNetwork (netBounds base bits).1 = true)
    (hlast : isPrivateNetwork (netBounds base bits).2 = true) (h : Agree bits base ip) :
    isPrivateNetwork ip = true := by
  cases base with
  | v4 b =>
    cases ip with
    | v6 a => exact h.elim
    | v4 a =>
      simp only [netBounds, boundsOf_eq] at hfirst hlast
      have hfirst' := (isPrivate_iff _).mp hfirst
      have hlast' := (isPrivate_iff _).mp hlast
      rw [toNat_first] at hfirst'
      rw [toNat_last (Nat.sub_le _ _)] at hlast'
      exact (isPrivate_iff a).mpr (inFour_block hfirst' hlast' h)
  | v6 b =>
    cases ip with
    | v4 a => exact h.elim
    | v6 a =>
      simp only [netBounds, boundsOf_eq] at hfirst hlast
      rw [isPrivateNetwork_six, toNat_first] at hfirst
      rw [isPrivateNetwork_six, toNat_last (Nat.sub_le _ _)] at hlast
      exact (isPrivateNetwork_six a).mpr (inSix_block hfirst hlast h)

theorem canonical_mapped {a : BitVec 128} {four : BitVec 32} (h : toIpv4Mapped a = some four) :
    canonical (.v6 a) = .v4 four := by
  rw [canonical, h]
  rfl

theorem canonical_other {a : BitVec 128} (h : toIpv4Mapped a = none) :
    canonical (.v6 a) = .v6 a := by
  rw [canonical, h]
  rfl

theorem canonical_private (ip : IpAddr) :
    isPrivateNetwork (canonical ip) = isPrivateNetwork ip := by
  cases ip with
  | v4 a => rfl
  | v6 a =>
    cases hmapped : toIpv4Mapped a with
    | some four =>
      rw [canonical_mapped hmapped]
      simp only [isPrivateNetwork, hmapped]
    | none => rw [canonical_other hmapped]

/-- An address is reached when an entry that is kept names its older spelling. -/
theorem reachedLocally_iff (hlist : isLocalList text = true) (hip : readHost host = some ip) :
    (Blocklist.parse text).reachedLocally host = true ↔
      ∃ entry, Accepted text entry ∧ Denotes entry (canonical ip) := by
  have hnets : (Blocklist.parse text).localNets = (localEntries text).filterMap parseNet := by
    unfold isLocalList at hlist
    rw [Blocklist.parse]
    dsimp only
    rw [if_pos hlist]
    rfl
  have hreached : (Blocklist.parse text).reachedLocally host = true ↔
      ∃ net bits, (net, bits) ∈ (Blocklist.parse text).localNets ∧ inNet ip net bits = true := by
    unfold readHost at hip
    unfold Blocklist.reachedLocally
    rw [hip]
    dsimp only
    constructor
    · intro h
      split at h
      · obtain ⟨⟨net, bits⟩, hin, hmet⟩ := List.any_eq_true.mp h
        exact ⟨net, bits, hin, hmet⟩
      · cases h
    · rintro ⟨net, bits, hin, hmet⟩
      rw [if_pos (by
        rw [Blocklist.isLocal, decide_eq_true (List.ne_nil_of_mem hin), Bool.or_true])]
      exact List.any_eq_true.mpr ⟨(net, bits), hin, hmet⟩
  rw [hreached, hnets]
  constructor
  · rintro ⟨net, bits, hin, hmet⟩
    obtain ⟨entry, hentry, hparse⟩ := List.mem_filterMap.mp hin
    obtain ⟨addr, base, haddr, hbase, rfl, -⟩ := parseNet_spec hparse
    exact ⟨entry, ⟨hentry, by rw [hparse]; rfl⟩, addr, bits, base, haddr, hbase, inNet_iff.mp hmet⟩
  · rintro ⟨entry, ⟨hentry, hkept⟩, addr, bits, base, haddr, hbase, hagree⟩
    obtain ⟨⟨net, bits'⟩, hparse⟩ := Option.isSome_iff_exists.mp hkept
    obtain ⟨addr', base', haddr', hbase', rfl, -⟩ := parseNet_spec hparse
    rw [haddr'] at haddr
    cases haddr
    rw [hbase'] at hbase
    cases hbase
    exact ⟨_, bits, List.mem_filterMap.mpr ⟨entry, hentry, hparse⟩, inNet_iff.mpr hagree⟩

/-- All that a kept entry names is private. -/
theorem private_of_denotes (h : Accepted text entry) (hip : Denotes entry ip) :
    isPrivateNetwork ip = true := by
  obtain ⟨addr, bits, base, haddr, hbase, hagree⟩ := hip
  obtain ⟨⟨net, bits'⟩, hparse⟩ := Option.isSome_iff_exists.mp h.2
  obtain ⟨addr', base', haddr', hbase', rfl, hbits, hfirst, hlast⟩ := parseNet_spec hparse
  rw [haddr'] at haddr
  cases haddr
  rw [hbase'] at hbase
  cases hbase
  exact isPrivateNetwork_agree hbits hfirst hlast hagree

end Matching

section Exactness

variable {text : Text}

/-- A list of the local network reaches exactly the private addresses its entries name, when
those that it names in the newer version's spelling are named in the older one's too. -/
theorem exact_iff_covered (hlist : isLocalList text = true) : Exact text ↔ Covered text := by
  constructor
  · intro h entry hentry a four hdenotes hmapped
    have hshown := readHost_of_parseIp (parseIp_showIpv4 four)
    have hreached := h.complete entry hentry (.v6 a) hdenotes (private_of_denotes hentry hdenotes)
      (showIpv4 four) (.v4 four) hshown (canonical_mapped hmapped).symm
    exact (reachedLocally_iff hlist hshown).mp hreached
  · intro h
    constructor
    · intro host ip hip hreached
      obtain ⟨entry, hentry, hdenotes⟩ := (reachedLocally_iff hlist hip).mp hreached
      rw [← canonical_private]
      exact private_of_denotes hentry hdenotes
    · intro entry hentry ip hdenotes hprivate host other hother hsame
      refine (reachedLocally_iff hlist hother).mpr ?_
      rw [hsame]
      cases ip with
      | v4 a => exact ⟨entry, hentry, hdenotes⟩
      | v6 a =>
        cases hmapped : toIpv4Mapped a with
        | none =>
          rw [canonical_other hmapped]
          exact ⟨entry, hentry, hdenotes⟩
        | some four =>
          rw [canonical_mapped hmapped]
          exact h entry hentry a four hdenotes hmapped

/-- One with an entry of the older version. -/
theorem exact_iff_covered_four : Exact "@local\n10.0.0.0/8".toList ↔
    Covered "@local\n10.0.0.0/8".toList :=
  exact_iff_covered (by decide)

/-- An entry in the newer version's spelling is kept, and never reached. -/
theorem mapped_entry_lost : ¬∀ text, isLocalList text = true → Exact text := by
  intro h
  have hlist : isLocalList "@local\n::ffff:10.1.2.3".toList = true := by decide
  have hentry : Accepted "@local\n::ffff:10.1.2.3".toList "::ffff:10.1.2.3".toList :=
    ⟨by decide, by decide⟩
  have hreached := (h _ hlist).complete _ hentry (.v6 (.ofNat 128 0xFFFF0A010203))
    ⟨"::ffff:10.1.2.3".toList, 128, .v6 (.ofNat 128 0xFFFF0A010203), by decide,
      by decide, rfl⟩ (by decide) "10.1.2.3".toList (.v4 (.ofNat 32 0x0A010203))
    (by decide) (by decide)
  revert hreached
  decide

end Exactness

end FuryBrowser.DomainLists
