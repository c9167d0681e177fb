import FuryBrowser.TextBytes

/-!
# Addresses of the two versions

An address is its bits. What the standard library says of one, and how it reads one: four decimal
numbers between dots, or eight hexadecimal groups between colons, of which one run may be left out
and the last two may be written as an address of the older version.
-/

namespace FuryBrowser.IpAddress

open TextBytes

/-- `IpAddr`. -/
inductive IpAddr where
  /-- `Ipv4Addr`. -/
  | v4 (bits : BitVec 32)
  /-- `Ipv6Addr`. -/
  | v6 (bits : BitVec 128)
  deriving DecidableEq, Repr

/-- An address of four octets. -/
def ofOctets (a b c d : ℕ) : BitVec 32 := .ofNat 32 (((a * 256 + b) * 256 + c) * 256 + d)

/-- An address of eight segments. -/
def ofSegments (segments : List ℕ) : BitVec 128 :=
  .ofNat 128 (segments.foldl (fun n s => n * 65536 + s) 0)

section Classes

/-- `Ipv4Addr::octets`. -/
def octet (a : BitVec 32) (i : ℕ) : ℕ := a.toNat / 256 ^ (3 - i) % 256

/-- `Ipv6Addr::segments`. -/
def segment (a : BitVec 128) (i : ℕ) : ℕ := a.toNat / 65536 ^ (7 - i) % 65536

/-- `Ipv4Addr::is_private`. -/
def isPrivate (a : BitVec 32) : Bool :=
  octet a 0 = 10 || (octet a 0 = 172 && 16 ≤ octet a 1 && octet a 1 ≤ 31) ||
    (octet a 0 = 192 && octet a 1 = 168)

/-- `Ipv4Addr::is_loopback`. -/
def isLoopback (a : BitVec 32) : Bool := octet a 0 = 127

/-- `Ipv4Addr::is_link_local`. -/
def isLinkLocal (a : BitVec 32) : Bool := octet a 0 = 169 && octet a 1 = 254

/-- The address is in `100.64.0.0/10`. -/
def isShared (a : BitVec 32) : Bool := octet a 0 = 100 && 64 ≤ octet a 1 && octet a 1 ≤ 127

/-- `Ipv6Addr::to_ipv4_mapped`. -/
def toIpv4Mapped (a : BitVec 128) : Option (BitVec 32) :=
  if a.toNat / 2 ^ 32 = 0xFFFF then some (.ofNat 32 a.toNat) else none

/-- The address is in `fc00::/7`. -/
def isUniqueLocal (a : BitVec 128) : Bool := segment a 0 &&& 0xFE00 = 0xFC00

end Classes

section Reading

/-- `char::to_digit`. -/
def toDigit (radix : ℕ) (c : Char) : Option ℕ :=
  let value :=
    if '0' ≤ c ∧ c ≤ '9' then some (c.toNat - 48)
    else if 'a' ≤ c ∧ c ≤ 'z' then some (c.toNat - 87)
    else if 'A' ≤ c ∧ c ≤ 'Z' then some (c.toNat - 55)
    else none
  value.filter (· < radix)

/-- `read_given_char`. -/
def readGivenChar (c : Char) : Text → Option Text
  | d :: rest => if d = c then some rest else none
  | [] => none

/-- `read_number`: all the digits there are, of which there may not be too many. -/
def readNumber (radix maxDigits limit : ℕ) (allowZeroPrefix : Bool) (text : Text) :
    Option (ℕ × Text) :=
  let digits := text.takeWhile fun c => (toDigit radix c).isSome
  let value := digits.foldl (fun n c => n * radix + (toDigit radix c).getD 0) 0
  if digits = [] ∨ maxDigits < digits.length then none
  else if !allowZeroPrefix ∧ digits.head? = some '0' ∧ 1 < digits.length then none
  else if limit < value then none
  else some (value, text.drop digits.length)

/-- An octet, and what stands before it. -/
def readOctet (first : Bool) (text : Text) : Option (ℕ × Text) := do
  let text ← if first then some text else readGivenChar '.' text
  readNumber 10 3 255 false text

/-- `read_ipv4_addr`. -/
def readIpv4 (text : Text) : Option (BitVec 32 × Text) := do
  let (a, text) ← readOctet true text
  let (b, text) ← readOctet false text
  let (c, text) ← readOctet false text
  let (d, text) ← readOctet false text
  pure (ofOctets a b c d, text)

/-- `read_groups`, with room for so many of `limit` groups: those that are there, and whether the
last two were an address of the older version. -/
def readGroups (limit : ℕ) : ℕ → Text → List ℕ × Bool × Text
  | 0, text => ([], false, text)
  | room + 1, text =>
    let start := if room + 1 = limit then some text else readGivenChar ':' text
    match if 0 < room then start.bind readIpv4 else none with
    | some (four, rest) =>
      ([octet four 0 * 256 + octet four 1, octet four 2 * 256 + octet four 3], true, rest)
    | none =>
      match start.bind (readNumber 16 4 65535 true) with
      | none => ([], false, text)
      | some (group, rest) =>
        let (groups, four, rest) := readGroups limit room rest
        (group :: groups, four, rest)

/-- `read_ipv6_addr`. -/
def readIpv6 (text : Text) : Option (BitVec 128 × Text) :=
  let (head, four, text) := readGroups 8 8 text
  if head.length = 8 then some (ofSegments head, text)
  else if four then none
  else do
    let text ← readGivenChar ':' text
    let text ← readGivenChar ':' text
    let limit := 8 - (head.length + 1)
    let (tail, _, text) := readGroups limit limit text
    pure (ofSegments (head ++ .replicate (8 - head.length - tail.length) 0 ++ tail), text)

/-- `str::parse::<IpAddr>`. -/
def parseIp (text : Text) : Option IpAddr :=
  match readIpv4 text with
  | some (four, rest) => if rest = [] then some (.v4 four) else none
  | none =>
    match readIpv6 text with
    | some (six, []) => some (.v6 six)
    | _ => none

example : parseIp "::ffff:10.0.0.1".toList = some (.v6 (.ofNat 128 0xFFFF0A000001)) := by
  decide

end Reading

section Dots

variable {text rest : Text} {radix maxDigits limit n : ℕ} {zero first : Bool} {four : BitVec 32}

/-- What a number leaves of a text, and what a text is of which it leaves nothing. -/
theorem readNumber_rest (h : readNumber radix maxDigits limit zero text = some (n, rest)) :
    rest <:+ text ∧ (rest = [] → text ≠ [] ∧ ∀ c ∈ text, (toDigit radix c).isSome) := by
  obtain ⟨digits, hdigits⟩ : ∃ digits, digits = text.takeWhile fun c => (toDigit radix c).isSome :=
    ⟨_, rfl⟩
  simp only [readNumber, ← hdigits] at h
  split_ifs at h with hsome
  cases h
  refine ⟨List.drop_suffix .., fun hrest => ?_⟩
  have hprefix : digits <+: text := hdigits ▸ List.takeWhile_prefix _
  have htext : digits = text := hprefix.eq_of_length_le (List.drop_eq_nil_iff.mp hrest)
  refine ⟨fun hnil => hsome (.inl (htext.trans hnil)), fun c hc => ?_⟩
  rw [← htext, hdigits] at hc
  exact List.all_eq_true.mp List.all_takeWhile c hc

theorem readOctet_rest (h : readOctet first text = some (n, rest)) :
    rest <:+ text ∧ (rest = [] → ∃ last, last <:+ text ∧ last ≠ [] ∧ '.' ∉ last) := by
  have hnone : ¬(toDigit 10 '.').isSome := by decide
  cases first with
  | true =>
    obtain ⟨hsuffix, hend⟩ := readNumber_rest h
    refine ⟨hsuffix, fun hrest => ⟨text, List.suffix_refl _, (hend hrest).1, fun hdot => ?_⟩⟩
    exact hnone ((hend hrest).2 _ hdot)
  | false =>
    obtain ⟨more, hmore, hread⟩ := Option.bind_eq_some_iff.mp h
    obtain ⟨hsuffix, hend⟩ := readNumber_rest hread
    have hmem : more <:+ text := by
      cases text with
      | nil => cases hmore
      | cons d text =>
        simp only [readGivenChar] at hmore
        split at hmore
        · cases hmore
          exact List.suffix_cons ..
        · cases hmore
    refine ⟨hsuffix.trans hmem, fun hrest => ⟨more, hmem, (hend hrest).1, fun hdot => ?_⟩⟩
    exact hnone ((hend hrest).2 _ hdot)

/-- An address of the older version ends in a number. -/
theorem readIpv4_end (h : readIpv4 text = some (four, [])) :
    ∃ last, last <:+ text ∧ last ≠ [] ∧ '.' ∉ last := by
  simp only [readIpv4, Option.bind_eq_bind, Option.bind_eq_some_iff, Prod.exists] at h
  obtain ⟨a, one, ha, b, two, hb, c, three, hc, d, four', hd, hend⟩ := h
  cases hend
  obtain ⟨last, hlast, hne, hdot⟩ := (readOctet_rest hd).2 rfl
  have hthree : three <:+ text :=
    (readOctet_rest hc).1.trans ((readOctet_rest hb).1.trans (readOctet_rest ha).1)
  exact ⟨last, hlast.trans hthree, hne, hdot⟩

theorem readGivenChar_of_notMem {c : Char} (h : c ∉ text) : readGivenChar c text = none := by
  cases text with
  | nil => rfl
  | cons d text =>
    rw [readGivenChar, if_neg]
    rintro rfl
    exact h List.mem_cons_self

/-- Without a colon there is one group at most. -/
theorem readGroups_colon (h : ':' ∉ text) :
    (readGroups 8 8 text).1.length < 8 ∧
      ((readGroups 8 8 text).2.1 = false → ':' ∉ (readGroups 8 8 text).2.2) := by
  rw [readGroups]
  split
  · exact ⟨by simp, by simp⟩
  · split
    · exact ⟨by simp, fun _ => h⟩
    · rename_i group rest hgroup
      have hrest : ':' ∉ rest := fun hin => h ((readNumber_rest hgroup).1.mem hin)
      have hmore : readGroups 8 7 rest = ([], false, rest) := by
        simp [readGroups, readGivenChar_of_notMem hrest]
      rw [hmore]
      exact ⟨by simp, fun _ => hrest⟩

/-- An address of the newer version has a colon in it. -/
theorem readIpv6_colon (h : ':' ∉ text) : readIpv6 text = none := by
  obtain ⟨hfew, hrest⟩ := readGroups_colon h
  rcases hgroups : readGroups 8 8 text with ⟨head, four, rest⟩
  rw [hgroups] at hfew hrest
  have hhead : head.length ≠ 8 := Nat.ne_of_lt hfew
  simp only [readIpv6, hgroups, if_neg hhead]
  cases four with
  | true => rfl
  | false => simp [readGivenChar_of_notMem (hrest rfl)]

/-- A dot at its end is no part of an address. -/
theorem parseIp_dot (h : ':' ∉ text) : parseIp (text ++ ['.']) = none := by
  have hsix : readIpv6 (text ++ ['.']) = none := readIpv6_colon (by simpa using h)
  unfold parseIp
  cases hfour : readIpv4 (text ++ ['.']) with
  | none => simp only [hsix]
  | some read =>
    obtain ⟨four, rest⟩ := read
    refine if_neg fun hrest => ?_
    subst hrest
    obtain ⟨last, hlast, hne, hdot⟩ := readIpv4_end hfour
    rcases List.suffix_concat_iff.mp hlast with hnil | ⟨t, ht, -⟩
    · exact hne hnil
    · exact hdot (ht ▸ by simp)

end Dots
end FuryBrowser.IpAddress

/-!
## The texts of addresses

What is read as an address is made of digits, colons and dots. An address of four octets, written
in decimal, is read back.
-/

namespace FuryBrowser.IpAddress

open TextBytes

section Marks

variable {text rest more : Text} {c : Char} {n radix maxDigits limit : ℕ} {zero first : Bool}

/-- A character of an address. -/
def isAddressMark (c : Char) : Bool := (toDigit 16 c).isSome || c = ':' || c = '.'

/-- What was read of a text is made of such characters. -/
def Consumed (text rest : Text) : Prop :=
  ∃ front, text = front ++ rest ∧ ∀ c ∈ front, isAddressMark c = true

theorem Consumed.refl : Consumed text text := ⟨[], rfl, by simp⟩

theorem Consumed.trans (h : Consumed text more) (h' : Consumed more rest) : Consumed text rest := by
  obtain ⟨front, rfl, hfront⟩ := h
  obtain ⟨next, rfl, hnext⟩ := h'
  refine ⟨front ++ next, (List.append_assoc _ _ _).symm, fun c hc => ?_⟩
  rcases List.mem_append.mp hc with hin | hin
  · exact hfront c hin
  · exact hnext c hin

theorem Consumed.all (h : Consumed text []) : ∀ c ∈ text, isAddressMark c = true := by
  obtain ⟨front, rfl, hfront⟩ := h
  rwa [List.append_nil]

theorem isAddressMark_digit (hradix : radix ≤ 16) (h : (toDigit radix c).isSome) :
    isAddressMark c = true := by
  obtain ⟨n, hn⟩ := Option.isSome_iff_exists.mp h
  obtain ⟨hvalue, hlt⟩ := Option.filter_eq_some_iff.mp hn
  have hlt' : n < radix := of_decide_eq_true hlt
  have hmore : toDigit 16 c = some n :=
    Option.filter_eq_some_iff.mpr ⟨hvalue, decide_eq_true (Nat.lt_of_lt_of_le hlt' hradix)⟩
  rw [isAddressMark, hmore]
  rfl

theorem readGivenChar_consumed (hc : isAddressMark c = true)
    (h : readGivenChar c text = some rest) : Consumed text rest := by
  cases text with
  | nil => cases h
  | cons d text =>
    rw [readGivenChar] at h
    split at h
    · rename_i hd
      cases h
      exact ⟨[d], rfl, fun e he => by rw [List.mem_singleton.mp he, hd, hc]⟩
    · cases h

theorem readNumber_consumed (hradix : radix ≤ 16)
    (h : readNumber radix maxDigits limit zero text = some (n, rest)) : Consumed text rest := by
  unfold readNumber at h
  dsimp only at h
  split_ifs at h
  cases h
  refine ⟨text.takeWhile fun c => (toDigit radix c).isSome, ?_, fun c hc => ?_⟩
  · exact (List.prefix_iff_eq_append.mp (List.takeWhile_prefix _)).symm
  · exact isAddressMark_digit hradix (List.all_eq_true.mp List.all_takeWhile c hc)

theorem readOctet_consumed (h : readOctet first text = some (n, rest)) : Consumed text rest := by
  cases first with
  | true => exact readNumber_consumed (by decide) h
  | false =>
    obtain ⟨more, hmore, hread⟩ := Option.bind_eq_some_iff.mp h
    exact (readGivenChar_consumed (by decide) hmore).trans (readNumber_consumed (by decide) hread)

theorem readIpv4_consumed {four : BitVec 32} (h : readIpv4 text = some (four, rest)) :
    Consumed text rest := by
  simp only [readIpv4, Option.bind_eq_bind, Option.bind_eq_some_iff, Prod.exists] at h
  obtain ⟨a, one, ha, b, two, hb, c, three, hc, d, four', hd, hend⟩ := h
  cases hend
  exact (readOctet_consumed ha).trans ((readOctet_consumed hb).trans
    ((readOctet_consumed hc).trans (readOctet_consumed hd)))

theorem readGroups_consumed (limit room : ℕ) (text : Text) :
    Consumed text (readGroups limit room text).2.2 := by
  induction room generalizing text with
  | zero => exact .refl
  | succ room ih =>
    have hstart {begun : Text} (h : (if room + 1 = limit then some text
        else readGivenChar ':' text) = some begun) : Consumed text begun := by
      split at h
      · cases h
        exact .refl
      · exact readGivenChar_consumed (by decide) h
    rw [readGroups]
    dsimp only
    split
    · rename_i four rest hfour
      split at hfour
      · obtain ⟨begun, hbegun, hread⟩ := Option.bind_eq_some_iff.mp hfour
        exact (hstart hbegun).trans (readIpv4_consumed hread)
      · cases hfour
    · split
      · exact .refl
      · rename_i group rest hgroup
        obtain ⟨begun, hbegun, hread⟩ := Option.bind_eq_some_iff.mp hgroup
        exact (hstart hbegun).trans ((readNumber_consumed (by decide) hread).trans (ih _))

theorem readIpv6_consumed {six : BitVec 128} (h : readIpv6 text = some (six, rest)) :
    Consumed text rest := by
  have hgroups := readGroups_consumed 8 8 text
  unfold readIpv6 at h
  dsimp only at h
  split at h
  · cases h
    exact hgroups
  · split at h
    · cases h
    · obtain ⟨one, hone, h⟩ := Option.bind_eq_some_iff.mp h
      obtain ⟨two, htwo, h⟩ := Option.bind_eq_some_iff.mp h
      cases h
      exact hgroups.trans ((readGivenChar_consumed (by decide) hone).trans
        ((readGivenChar_consumed (by decide) htwo).trans (readGroups_consumed _ _ _)))

/-- An address is made of digits, colons and dots. -/
theorem parseIp_marks {ip : IpAddr} (h : parseIp text = some ip) :
    ∀ c ∈ text, isAddressMark c = true := by
  unfold parseIp at h
  split at h
  · rename_i four rest hfour
    split at h
    · rename_i hrest
      exact (readIpv4_consumed (hrest ▸ hfour)).all
    · cases h
  · split at h
    · rename_i six hsix
      exact (readIpv6_consumed hsix).all
    · cases h

end Marks

section Decimal

variable {rest : Text}

/-- An octet in decimal. -/
def showOctet (n : ℕ) : Text := Nat.toDigits 10 n

/-- `Ipv4Addr::to_string`. -/
def showIpv4 (a : BitVec 32) : Text :=
  showOctet (octet a 0) ++ '.' :: (showOctet (octet a 1) ++ '.' :: (showOctet (octet a 2) ++
    '.' :: showOctet (octet a 3)))

theorem showOctet_spec : ∀ n < 256, (showOctet n).all (fun c => (toDigit 10 c).isSome) = true ∧
    (showOctet n).foldl (fun n c => n * 10 + (toDigit 10 c).getD 0) 0 = n ∧
    showOctet n ≠ [] ∧ (showOctet n).length ≤ 3 ∧
    ¬((showOctet n).head? = some '0' ∧ 1 < (showOctet n).length) := by
  decide +kernel

/-- An octet is read back when no digit follows. -/
theorem readNumber_showOctet {n : ℕ} (h : n < 256)
    (hrest : ∀ c ∈ rest.head?, (toDigit 10 c).isSome = false) :
    readNumber 10 3 255 false (showOctet n ++ rest) = some (n, rest) := by
  obtain ⟨hall, hvalue, hne, hlength, hzero⟩ := showOctet_spec n h
  have hdigits : (showOctet n ++ rest).takeWhile (fun c => (toDigit 10 c).isSome) =
      showOctet n := by
    rw [List.takeWhile_append_of_pos (List.all_eq_true.mp hall)]
    have hstop : rest.takeWhile (fun c => (toDigit 10 c).isSome) = [] := by
      cases rest with
      | nil => rfl
      | cons c rest =>
        rw [List.takeWhile_cons, if_neg]
        rw [hrest c rfl]
        exact Bool.false_ne_true
    rw [hstop, List.append_nil]
  unfold readNumber
  dsimp only
  rw [hdigits, hvalue, if_neg (not_or_intro hne (Nat.not_lt.mpr hlength)),
    if_neg (fun hboth => hzero hboth.2), if_neg (Nat.not_lt.mpr (Nat.le_of_lt_succ h)),
    List.drop_left]

theorem octet_lt (a : BitVec 32) (i : ℕ) : octet a i < 256 := Nat.mod_lt _ (by decide)

theorem ofOctets_octet (a : BitVec 32) :
    ofOctets (octet a 0) (octet a 1) (octet a 2) (octet a 3) = a := by
  apply BitVec.eq_of_toNat_eq
  have hlt := a.isLt
  simp only [ofOctets, octet, BitVec.toNat_ofNat]
  omega

/-- An address of four octets is read back. -/
theorem parseIp_showIpv4 (a : BitVec 32) : parseIp (showIpv4 a) = some (.v4 a) := by
  have hdot (rest : Text) : ∀ c ∈ ('.' :: rest).head?, (toDigit 10 c).isSome = false := by
    intro c hc
    cases hc
    decide
  have hnext (n : ℕ) (h : n < 256) (rest : Text)
      (hrest : ∀ c ∈ rest.head?, (toDigit 10 c).isSome = false) :
      readOctet false ('.' :: (showOctet n ++ rest)) = some (n, rest) :=
    readNumber_showOctet h hrest
  have hread : readIpv4 (showIpv4 a) = some (a, []) := by
    unfold readIpv4 showIpv4
    rw [show readOctet true _ = _ from readNumber_showOctet (octet_lt a 0) (hdot _)]
    change (readOctet false _).bind _ = _
    rw [hnext _ (octet_lt a 1) _ (hdot _)]
    change (readOctet false _).bind _ = _
    rw [hnext _ (octet_lt a 2) _ (hdot _)]
    change (readOctet false _).bind _ = _
    have hlast := hnext _ (octet_lt a 3) [] (by simp)
    rw [List.append_nil] at hlast
    rw [hlast]
    change some (ofOctets _ _ _ _, _) = _
    rw [ofOctets_octet]
  rw [parseIp, hread]
  rfl

end Decimal

end FuryBrowser.IpAddress
