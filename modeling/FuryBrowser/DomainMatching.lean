import FuryBrowser.DomainLists
import Mathlib.Data.List.DropRight

/-!
# What a list of domains names

A line of a list names a domain, and with it everything below it. A host may be asked for in any
case, with a dot after its name, and with a port. The port is cut off after the dots are, so a dot
that stands before a port is taken for a part of the name: such a host is matched by lines with
such a dot, and by no others.
-/

namespace FuryBrowser.DomainMatching

open AgentDisk TextBytes TextLines IpAddress DomainLists

/-- A host that goes by a name: no address, and no dot at its end. -/
structure HostName where
  name : Text
  named : name ≠ []
  /-- Of what a name is made of. -/
  chars : name.all isNameChar
  /-- The bare name has no dot at its end. -/
  bare : name.getLast? ≠ some '.'
  noAddress : isAddress name = false

/-- How a host is asked for. -/
structure Asked where
  host : HostName
  /-- Whether a dot follows its name. -/
  dot : Bool
  port : Option ℕ

/-- The name as it is asked for. -/
def Asked.dotted (asked : Asked) : Text := asked.host.name ++ if asked.dot then ['.'] else []

/-- The text of it. -/
def Asked.text (asked : Asked) : Text :=
  match asked.port with
  | some port => asked.dotted ++ ':' :: Nat.toDigits 10 port
  | none => asked.dotted

section Names

/-- What kind of list a text is. -/
inductive Kind where
  | blocklist
  | whitelist
  | localNames
  deriving DecidableEq, Repr

/-- The kind of a list: a list of the local network whatever else it says. -/
def kindOf (text : Text) : Kind :=
  if (listLines text).any fun line => lowerText line = localMark then .localNames
  else if (listLines text).any fun line => lowerText line = allowOnly then .whitelist
  else .blocklist

/-- What the lines of a list offer as domains. -/
def entries (text : Text) : List Text :=
  ((listLines text).filter fun line => lowerText line ≠ allowOnly).filterMap candidate

/-- What stands before the port. -/
def hostPart (entry : Text) : Text := (splitAt ':' (trimText entry)).headD []

/-- A dot that is followed by a port. -/
def dotBeforePort (entry : Text) : Bool :=
  ':' ∈ trimText entry && (hostPart entry).getLast? = some '.'

/-- A text as a name, if it is one: it has a dot, is no address and is made of what names are made
of. -/
def nameFrom (text : Text) : Option Text :=
  if '.' ∈ text ∧ isAddress text = false ∧ text.all isNameChar then some (lowerText text) else none

/-- The name of an entry: without its port, and then without the dots at its end. -/
def bareName (entry : Text) : Option Text := nameFrom (trimEndMatches '.' (hostPart entry))

/-- A host that is a domain, or below it. -/
def endsIn (host name : Text) : Bool := host = name || ('.' :: name).isSuffixOf host

/-- Whether a list names a host. -/
def names (text : Text) (host : HostName) : Bool :=
  (entries text).any fun entry => (bareName entry).any (endsIn (lowerText host.name))

/-- The answer a host should get: a blocklist refuses what it names, a whitelist everything else. -/
def Answered (text : Text) (asked : Asked) : Prop :=
  match kindOf text with
  | .blocklist => (Blocklist.parse text).blocks asked.text = names text asked.host
  | .whitelist => (Blocklist.parse text).blocks asked.text = !names text asked.host
  | .localNames => True

/-- A host with no dot before a port, if it is named, is named by an entry with none. A host with
one is named just when it is, with its dot, at or below what an entry has before its port, with a
dot as well. -/
def alike (text : Text) (asked : Asked) : Bool :=
  if asked.dot && asked.port.isSome then
    names text asked.host == (entries text).any fun entry =>
      dotBeforePort entry && endsIn (lowerText asked.dotted) (lowerText (hostPart entry))
  else
    !names text asked.host || (entries text).any fun entry =>
      !dotBeforePort entry && (bareName entry).any (endsIn (lowerText asked.host.name))

end Names

section Suffixes

variable {set : List Text} {host label parent name : Text}

theorem endsIn_iff : endsIn host name ↔ host = name ∨ ('.' :: name) <:+ host := by
  simp [endsIn]

theorem endsIn_label (h : '.' ∉ label) :
    endsIn (label ++ '.' :: parent) name ↔ label ++ '.' :: parent = name ∨ endsIn parent name := by
  rw [endsIn_iff, endsIn_iff]
  refine or_congr_right ⟨?_, ?_⟩
  · rintro ⟨before, hbefore⟩
    rcases List.append_eq_append_iff.mp hbefore with ⟨more, hlabel, hmore⟩ | ⟨more, hlabel, hmore⟩
    · cases more with
      | nil => exact .inl (List.cons.inj hmore).2.symm
      | cons c more =>
        obtain ⟨rfl, -⟩ := List.cons.inj hmore
        exact absurd (hlabel ▸ by simp) h
    · cases more with
      | nil => exact .inl (List.cons.inj hmore).2
      | cons c more => exact .inr ⟨more, (List.cons.inj hmore).2.symm⟩
  · rintro (rfl | h)
    · exact List.suffix_append ..
    · exact (h.trans (List.suffix_cons ..)).trans (List.suffix_append ..)

/-- The loop finds a host that is a name of the set, or below one. -/
theorem matchesUpTo_iff (hset : [] ∉ set) {n : ℕ} (hn : host.length < n) :
    matchesUpTo set n host ↔ ∃ name ∈ set, endsIn host name := by
  induction n generalizing host with
  | zero => omega
  | succ n ih =>
    rw [matchesUpTo]
    by_cases hin : host ∈ set
    · exact iff_of_true (if_pos hin) ⟨host, hin, endsIn_iff.mpr (.inl rfl)⟩
    · rw [if_neg hin]
      by_cases hdot : '.' ∈ host
      · obtain ⟨label, parent, rfl, hlabel⟩ := List.eq_append_cons_of_mem hdot
        rw [splitOnce_append hlabel]
        have hparent : (∃ name ∈ set, endsIn (label ++ '.' :: parent) name) ↔
            ∃ name ∈ set, endsIn parent name := by
          refine exists_congr fun name => and_congr_right fun hname => ?_
          rw [endsIn_label hlabel]
          exact or_iff_right fun heq => hin (heq ▸ hname)
        rw [hparent]
        by_cases hnil : parent = []
        · refine iff_of_false (by simp [hnil]) ?_
          rintro ⟨name, hname, hends⟩
          rw [hnil, endsIn_iff] at hends
          rcases hends with rfl | hends
          · exact hset hname
          · exact absurd (List.suffix_nil.mp hends) (List.cons_ne_nil _ _)
        · simp only [if_neg hnil]
          refine ih ?_
          rw [List.length_append, List.length_cons] at hn
          omega
      · rw [splitOnce_of_notMem hdot]
        refine iff_of_false Bool.false_ne_true ?_
        rintro ⟨name, hname, hends⟩
        rcases endsIn_iff.mp hends with rfl | hends
        · exact hin hname
        · exact hdot (hends.mem List.mem_cons_self)

/-- `matches_or_parent`, as what it looks for. -/
theorem matchesOrParent_iff (hset : [] ∉ set) :
    matchesOrParent set host ↔ ∃ name ∈ set, endsIn host name := by
  unfold matchesOrParent
  split
  · rename_i hnil
    simp [hnil]
  · exact matchesUpTo_iff hset (Nat.lt_succ_self _)

end Suffixes

section Characters

variable {c : Char} {text : Text}

theorem isNameChar_iff : isNameChar c ↔ (65 ≤ c.toNat ∧ c.toNat ≤ 90) ∨
    (97 ≤ c.toNat ∧ c.toNat ≤ 122) ∨ (48 ≤ c.toNat ∧ c.toNat ≤ 57) ∨ c.toNat = 45 ∨
    c.toNat = 46 ∨ c.toNat = 95 := by
  have halpha : c.isAlpha = (c.isUpper || c.isLower) := rfl
  have hupper : c.isUpper = decide (c.val ≥ 65 ∧ c.val ≤ 90) := rfl
  have hlower : c.isLower = (decide (c.val ≥ 97) && decide (c.val ≤ 122)) := rfl
  simp [isNameChar, Char.isAlphanum, Char.isDigit, halpha, hupper, hlower,
    UInt32.le_iff_toNat_le, Char.ext_iff, ← UInt32.toNat_inj]
  omega

theorem isNameChar_toLower : isNameChar c.toLower ↔ isNameChar c := by
  rw [isNameChar_iff, isNameChar_iff, toNat_toLower]
  split <;> omega

theorem toLower_dot : c.toLower = '.' ↔ c = '.' := by
  rw [← Char.toNat_inj, ← Char.toNat_inj, toNat_toLower]
  change _ = 46 ↔ _ = 46
  split <;> omega

theorem isWhiteSpace_nameChar (h : isNameChar c) : isWhiteSpace c = false := by
  have hrange := isNameChar_iff.mp h
  simp [isWhiteSpace]
  omega

theorem mem_lowerText_dot : '.' ∈ lowerText text ↔ '.' ∈ text := by
  simp [lowerText, toLower_dot]

/-- The case of a text does not say how it ends. -/
theorem lowerText_ends : (lowerText text).getLast? = some '.' ↔ text.getLast? = some '.' := by
  rw [lowerText, List.getLast?_map, Option.map_eq_some_iff]
  simp [toLower_dot]

end Characters

section Normal

variable {raw text : Text}

/-- The checks a name goes through, one after the other. -/
theorem nameFrom_eq (name : Text) :
    nameFrom name =
      if name = [] ∨ '.' ∉ name then none
      else if (parseIp name).isSome then none
      else if name.all isNameChar then some (lowerText name)
      else none := by
  unfold nameFrom isAddress
  by_cases hdot : '.' ∈ name
  · have hne : name ≠ [] := List.ne_nil_of_mem hdot
    cases hip : parseIp name <;> simp [hdot, hne]
  · simp [hdot]

theorem normalise_kept :
    normalise raw = nameFrom ((splitAt ':' (trimEndMatches '.' (trimText raw))).headD
      (trimEndMatches '.' (trimText raw))) :=
  (nameFrom_eq _).symm

theorem trimEndMatches_append {c d : Char} (h : d ≠ c) (a b : Text) :
    trimEndMatches c (a ++ d :: b) = a ++ d :: trimEndMatches c b := by
  have hreverse : (a ++ d :: b).reverse = b.reverse ++ d :: a.reverse := by simp
  unfold trimEndMatches
  rw [hreverse, List.dropWhile_append]
  by_cases hb : (b.reverse.dropWhile (· = c)).isEmpty
  · simp_all
  · simp_all

/-- The port is cut off after the dots are. -/
theorem normalise_eq :
    normalise raw = if dotBeforePort raw then nameFrom (hostPart raw) else bareName raw := by
  rw [normalise_kept, dotBeforePort, bareName]
  by_cases hcolon : ':' ∈ trimText raw
  · obtain ⟨first, port, htrim, hfirst⟩ := List.eq_append_cons_of_mem hcolon
    have hpart : hostPart raw = first := by rw [hostPart, htrim, splitAt_headD hfirst]
    rw [hpart, htrim, trimEndMatches_append (by decide), splitAt_headD hfirst]
    by_cases hlast : first.getLast? = some '.'
    · simp [hlast]
    · have hend : trimEndMatches '.' first = first := by
        refine List.rdropWhile_eq_self_iff.mpr fun hne hdot => hlast ?_
        rw [List.getLast?_eq_some_getLast hne]
        exact congrArg some (by simpa using hdot)
      simp [hlast, hend]
  · have hnone : ':' ∉ trimEndMatches '.' (trimText raw) := fun hin =>
      hcolon ((List.rdropWhile_prefix _ _).mem hin)
    simp [hcolon, hostPart, splitAt_of_notMem hcolon, splitAt_of_notMem hnone]

end Normal

section Hosts

variable (asked : Asked) {entry host name text : Text}

theorem nameFrom_some (h : name ∈ nameFrom text) :
    '.' ∈ text ∧ text.all isNameChar ∧ name = lowerText text := by
  rw [nameFrom] at h
  split at h
  · rename_i hname
    exact ⟨hname.1, hname.2.2, (Option.some.inj h).symm⟩
  · cases h

/-- A bare name has a dot in it, and none at its end. -/
theorem bareName_some (h : name ∈ bareName entry) :
    '.' ∈ name ∧ name.getLast? ≠ some '.' := by
  obtain ⟨hdot, -, rfl⟩ := nameFrom_some h
  refine ⟨mem_lowerText_dot.mpr hdot, fun hlast => ?_⟩
  have hne : trimEndMatches '.' (hostPart entry) ≠ [] := List.ne_nil_of_mem hdot
  rw [lowerText_ends, List.getLast?_eq_some_getLast hne] at hlast
  exact List.rdropWhile_last_not _ _ hne (decide_eq_true (Option.some.inj hlast))

/-- Below a name, a host ends as the name does. -/
theorem endsIn_last (hname : '.' ∈ name) (h : endsIn host name) :
    host.getLast? = name.getLast? := by
  rcases endsIn_iff.mp h with rfl | ⟨before, rfl⟩
  · rfl
  · cases name with
    | nil => simp at hname
    | cons c rest =>
      rw [List.getLast?_append_of_ne_nil _ (List.cons_ne_nil _ _), List.getLast?_cons_cons]

theorem endsIn_sub (h : endsIn host name) : ∀ c ∈ name, c ∈ host := by
  intro c hc
  rcases endsIn_iff.mp h with rfl | hends
  · exact hc
  · exact hends.mem (List.mem_cons_of_mem _ hc)

theorem Asked.dotted_chars : asked.dotted.all isNameChar := by
  have hdot : isNameChar '.' := by decide
  unfold Asked.dotted
  rw [List.all_append, asked.host.chars]
  split <;> simp [hdot]

theorem no_colon (h : text.all isNameChar) : ':' ∉ text := fun hin =>
  absurd (List.all_eq_true.mp h _ hin) (by decide)

theorem Asked.dotted_colon : ':' ∉ asked.dotted := no_colon asked.dotted_chars

/-- There is no white space in a host as it is asked for. -/
theorem Asked.trim_text : trimText asked.text = asked.text := by
  have hdotted : ∀ c ∈ asked.dotted, isWhiteSpace c = false := fun c hc =>
    isWhiteSpace_nameChar (List.all_eq_true.mp asked.dotted_chars c hc)
  refine trimText_of_forall ?_
  unfold Asked.text
  split
  · intro c hc
    rcases List.mem_append.mp hc with hc | hc
    · exact hdotted c hc
    · rcases List.mem_cons.mp hc with rfl | hc
      · decide
      · exact isWhiteSpace_of_isDigit (digits_of_toDigits hc)
  · exact hdotted

theorem Asked.hostPart_text : hostPart asked.text = asked.dotted := by
  rw [hostPart, asked.trim_text, Asked.text]
  split
  · exact splitAt_headD asked.dotted_colon _
  · rw [splitAt_of_notMem asked.dotted_colon]
    rfl

theorem Asked.colon_text : ':' ∈ asked.text ↔ asked.port.isSome := by
  unfold Asked.text
  cases asked.port with
  | none => simpa using asked.dotted_colon
  | some port => simp

theorem Asked.dotted_last : asked.dotted.getLast? = some '.' ↔ asked.dot := by
  unfold Asked.dotted
  cases hdot : asked.dot with
  | true => simp
  | false => simpa using asked.host.bare

theorem Asked.dotBeforePort_text :
    dotBeforePort asked.text = (asked.dot && asked.port.isSome) := by
  rw [Bool.eq_iff_iff, dotBeforePort, asked.hostPart_text, asked.trim_text, Bool.and_eq_true,
    Bool.and_eq_true, decide_eq_true_iff, decide_eq_true_iff, asked.colon_text,
    asked.dotted_last, and_comm]

theorem HostName.nameFrom_name (h : HostName) :
    nameFrom h.name = if '.' ∈ h.name then some (lowerText h.name) else none := by
  unfold nameFrom
  simp only [h.noAddress, h.chars, and_true]

theorem Asked.bareName_text : bareName asked.text = nameFrom asked.host.name := by
  have hbare : trimEndMatches '.' asked.host.name = asked.host.name := by
    refine List.rdropWhile_eq_self_iff.mpr fun hne hdot => asked.host.bare ?_
    rw [List.getLast?_eq_some_getLast hne]
    exact congrArg some (by simpa using hdot)
  rw [bareName, asked.hostPart_text, Asked.dotted]
  split
  · have hconcat : trimEndMatches '.' (asked.host.name ++ ['.']) =
        trimEndMatches '.' asked.host.name :=
      List.rdropWhile_concat_pos _ _ _ (by simp)
    rw [hconcat, hbare]
  · rw [List.append_nil, hbare]

/-- What is made of a host as it is asked for. -/
theorem Asked.normalise_text :
    normalise asked.text =
      if asked.dot && asked.port.isSome then some (lowerText asked.dotted)
      else if '.' ∈ asked.host.name then some (lowerText asked.host.name) else none := by
  rw [normalise_eq, asked.dotBeforePort_text]
  split
  · rename_i hboth
    have hdot : asked.dot := (Bool.and_eq_true _ _ ▸ hboth).1
    have hdotted : asked.dotted = asked.host.name ++ ['.'] := by rw [Asked.dotted, if_pos hdot]
    have hnone : parseIp asked.dotted = none := by
      rw [hdotted]
      exact parseIp_dot (no_colon asked.host.chars)
    rw [asked.hostPart_text, nameFrom, if_pos]
    refine ⟨by simp [hdotted], by rw [isAddress, hnone]; rfl, asked.dotted_chars⟩
  · rw [asked.bareName_text, asked.host.nameFrom_name]

end Hosts

section Answers

variable (asked : Asked) {text : Text}

theorem domainsOf_eq : domainsOf (listLines text) = (entries text).filterMap normalise := by
  rw [domainsOf, entries, List.filterMap_filterMap]

/-- A name that is read has a dot in it. -/
theorem normalise_dot {raw name : Text} (h : name ∈ normalise raw) : '.' ∈ name := by
  rw [normalise_kept] at h
  obtain ⟨hdot, -, rfl⟩ := nameFrom_some h
  exact mem_lowerText_dot.mpr hdot

theorem nil_notMem_domains : [] ∉ domainsOf (listLines text) := by
  rw [domainsOf_eq]
  intro hin
  obtain ⟨entry, -, hentry⟩ := List.mem_filterMap.mp hin
  exact absurd (normalise_dot hentry) List.not_mem_nil

/-- Whether a host, as it is asked for, is a domain of a list or below one. -/
def reaches (text : Text) (asked : Asked) : Bool :=
  (normalise asked.text).any (matchesOrParent (domainsOf (listLines text)))

theorem reaches_iff : reaches text asked ↔
    ∃ host ∈ normalise asked.text, ∃ entry ∈ entries text, ∃ name ∈ normalise entry,
      endsIn host name := by
  have hset (host : Text) : matchesOrParent (domainsOf (listLines text)) host ↔
      ∃ entry ∈ entries text, ∃ name ∈ normalise entry, endsIn host name := by
    rw [matchesOrParent_iff nil_notMem_domains, domainsOf_eq]
    constructor
    · rintro ⟨name, hname, hends⟩
      obtain ⟨entry, hentry, hnormal⟩ := List.mem_filterMap.mp hname
      exact ⟨entry, hentry, name, hnormal, hends⟩
    · rintro ⟨entry, hentry, name, hnormal, hends⟩
      exact ⟨name, List.mem_filterMap.mpr ⟨entry, hentry, hnormal⟩, hends⟩
  rw [reaches, Option.any_eq_true]
  exact exists_congr fun host => and_congr_right fun _ => hset host

theorem blocks_blocklist (h : kindOf text = .blocklist) :
    (Blocklist.parse text).blocks asked.text = reaches text asked := by
  have hparse : Blocklist.parse text =
      { Blocklist.empty with domains := domainsOf (listLines text) } := by
    unfold kindOf at h
    unfold Blocklist.parse
    split_ifs at h with hlocal hallow
    rw [if_neg hlocal, if_neg hallow]
  rw [hparse, reaches, Blocklist.blocks, Blocklist.refusesNothing]
  by_cases hnil : domainsOf (listLines text) = []
  · cases normalise asked.text <;> simp [hnil, Blocklist.empty, matchesOrParent]
  · cases normalise asked.text <;> simp [hnil, Blocklist.empty]

theorem blocks_whitelist (h : kindOf text = .whitelist) :
    (Blocklist.parse text).blocks asked.text = !reaches text asked := by
  have hparse : Blocklist.parse text =
      { Blocklist.empty with allowed := some (domainsOf (listLines text)) } := by
    unfold kindOf at h
    unfold Blocklist.parse
    split_ifs at h with hlocal hallow
    rw [if_neg hlocal, if_pos hallow]
  rw [hparse, reaches, Blocklist.blocks, Blocklist.refusesNothing]
  cases normalise asked.text with
  | none => simp [Blocklist.empty]
  | some name =>
    cases matchesOrParent (domainsOf (listLines text)) name <;>
      simp [Blocklist.empty, matchesOrParent]

/-- With no dot before its port, a host is matched by the entries with none. -/
theorem reaches_plain (h : (asked.dot && asked.port.isSome) = false) :
    reaches text asked = (entries text).any fun entry =>
      !dotBeforePort entry && (bareName entry).any (endsIn (lowerText asked.host.name)) := by
  rw [Bool.eq_iff_iff, reaches_iff, asked.normalise_text, h, if_neg Bool.false_ne_true,
    List.any_eq_true]
  constructor
  · rintro ⟨host, hhost, entry, hin, name, hname, hends⟩
    obtain rfl : lowerText asked.host.name = host := by
      split at hhost
      · exact Option.some.inj hhost
      · cases hhost
    have hlast := endsIn_last (normalise_dot hname) hends
    have hplain : dotBeforePort entry = false := by
      rw [Bool.eq_false_iff]
      intro hdotted
      rw [normalise_eq, if_pos hdotted] at hname
      obtain ⟨-, -, rfl⟩ := nameFrom_some hname
      have hend : (hostPart entry).getLast? = some '.' :=
        of_decide_eq_true (Bool.and_eq_true _ _ ▸ hdotted).2
      rw [lowerText_ends.mpr hend, lowerText_ends] at hlast
      exact asked.host.bare hlast
    rw [normalise_eq, hplain, if_neg Bool.false_ne_true] at hname
    refine ⟨entry, hin, ?_⟩
    rw [hplain, Bool.not_false, Bool.true_and, Option.any_eq_true]
    exact ⟨name, hname, hends⟩
  · rintro ⟨entry, hin, hentry⟩
    obtain ⟨hplain, hany⟩ := Bool.and_eq_true _ _ ▸ hentry
    obtain ⟨name, hname, hends⟩ := (Option.any_eq_true _ _).mp hany
    have hdot : '.' ∈ asked.host.name :=
      mem_lowerText_dot.mp (endsIn_sub hends _ (bareName_some hname).1)
    refine ⟨lowerText asked.host.name, by rw [if_pos hdot]; rfl, entry, hin, name, ?_, hends⟩
    rw [normalise_eq, if_neg (by simpa using hplain)]
    exact hname

/-- With one, by the entries with one. -/
theorem reaches_dotted (h : (asked.dot && asked.port.isSome) = true) :
    reaches text asked = (entries text).any fun entry =>
      dotBeforePort entry && endsIn (lowerText asked.dotted) (lowerText (hostPart entry)) := by
  have hdot : asked.dot := (Bool.and_eq_true _ _ ▸ h).1
  rw [Bool.eq_iff_iff, reaches_iff, asked.normalise_text, h, if_pos rfl, List.any_eq_true]
  constructor
  · rintro ⟨host, hhost, entry, hin, name, hname, hends⟩
    obtain rfl : lowerText asked.dotted = host := Option.some.inj hhost
    have hlast := endsIn_last (normalise_dot hname) hends
    rw [lowerText_ends.mpr (asked.dotted_last.mpr hdot)] at hlast
    have hdotted : dotBeforePort entry := by
      by_contra hplain
      rw [normalise_eq, if_neg hplain] at hname
      exact (bareName_some hname).2 hlast.symm
    rw [normalise_eq, if_pos hdotted] at hname
    obtain ⟨-, -, rfl⟩ := nameFrom_some hname
    exact ⟨entry, hin, by rw [hdotted, hends]; rfl⟩
  · rintro ⟨entry, hin, hentry⟩
    obtain ⟨hdotted, hends⟩ := Bool.and_eq_true _ _ ▸ hentry
    refine ⟨_, rfl, entry, hin, lowerText (hostPart entry), ?_, hends⟩
    have hend : (hostPart entry).getLast? = some '.' :=
      of_decide_eq_true (Bool.and_eq_true _ _ ▸ hdotted).2
    have hchars : (hostPart entry).all isNameChar := by
      refine List.all_eq_true.mpr fun c hc => ?_
      obtain ⟨d, hd, hlower⟩ := List.mem_map.mp (endsIn_sub hends _ (List.mem_map_of_mem hc))
      rw [← isNameChar_toLower, ← hlower, isNameChar_toLower]
      exact List.all_eq_true.mp asked.dotted_chars d hd
    obtain ⟨before, hbefore⟩ := List.getLast?_eq_some_iff.mp hend
    have hnone : isAddress (hostPart entry) = false := by
      have hcolon := no_colon hchars
      rw [hbefore] at hcolon ⊢
      rw [isAddress, parseIp_dot fun hin => hcolon (List.mem_append_left _ hin)]
      rfl
    rw [normalise_eq, if_pos hdotted, nameFrom, if_pos ⟨by simp [hbefore], hnone, hchars⟩]
    rfl

/-- A list names what an entry of it with no dot before a port names. -/
theorem names_of_plain (text : Text) (host : HostName) (h : (entries text).any fun entry =>
    !dotBeforePort entry && (bareName entry).any (endsIn (lowerText host.name))) :
    names text host := by
  obtain ⟨entry, hin, hentry⟩ := List.any_eq_true.mp h
  exact List.any_eq_true.mpr ⟨entry, hin, (Bool.and_eq_true _ _ ▸ hentry).2⟩

theorem reaches_names : reaches text asked = names text asked.host ↔ alike text asked := by
  unfold alike
  cases h : asked.dot && asked.port.isSome with
  | true =>
    rw [if_pos rfl, ← reaches_dotted asked h, beq_iff_eq, eq_comm]
  | false =>
    rw [if_neg Bool.false_ne_true, ← reaches_plain asked h, Bool.eq_iff_iff, Bool.or_eq_true,
      Bool.not_eq_true']
    have hnames := reaches_plain asked h ▸ names_of_plain text asked.host
    cases hr : reaches text asked <;> cases hn : names text asked.host <;> simp_all

/-- A list of the local network refuses nothing. -/
theorem blocks_local (h : kindOf text = .localNames) :
    (Blocklist.parse text).blocks asked.text = false := by
  have hparse : Blocklist.parse text = parseLocal (listLines text) := by
    unfold kindOf at h
    unfold Blocklist.parse
    split_ifs at h with hlocal
    rw [if_pos hlocal]
  have hnone : (parseLocal (listLines text)).refusesNothing = true := rfl
  rw [hparse, Blocklist.blocks, hnone, if_pos rfl]

/-- Two ways to ask for one host get one answer, where both write their dots as the list does. -/
theorem spellings_agree (text : Text) (asked other : Asked)
    (hname : lowerText asked.host.name = lowerText other.host.name)
    (hasked : alike text asked) (hother : alike text other) :
    (Blocklist.parse text).blocks asked.text = (Blocklist.parse text).blocks other.text := by
  have hnames : names text asked.host = names text other.host := by simp only [names, hname]
  have hreaches : reaches text asked = reaches text other :=
    ((reaches_names asked).mpr hasked).trans (hnames.trans ((reaches_names other).mpr hother).symm)
  cases h : kindOf text with
  | blocklist => rw [blocks_blocklist asked h, blocks_blocklist other h, hreaches]
  | whitelist => rw [blocks_whitelist asked h, blocks_whitelist other h, hreaches]
  | localNames => rw [blocks_local asked h, blocks_local other h]

/-- A host gets the answer it should, however it is asked for, just when the list and the host
write their dots alike. -/
theorem answered_iff (text : Text) (asked : Asked) :
    Answered text asked ↔ kindOf text = .localNames ∨ alike text asked := by
  unfold Answered
  rw [← reaches_names]
  cases h : kindOf text with
  | blocklist => simp [blocks_blocklist asked h]
  | whitelist => simp [blocks_whitelist asked h]
  | localNames => simp

end Answers

section Ads

/-- A host that is listed. -/
def ads : HostName := ⟨"ads.example.com".toList, by decide, by decide, by decide, by decide⟩

instance (text : Text) (asked : Asked) : Decidable (Answered text asked) :=
  match h : kindOf text with
  | .blocklist => decidable_of_iff
      ((Blocklist.parse text).blocks asked.text = names text asked.host) (by simp [Answered, h])
  | .whitelist => decidable_of_iff
      ((Blocklist.parse text).blocks asked.text = !names text asked.host) (by simp [Answered, h])
  | .localNames => .isTrue (by simp [Answered, h])

/-- With a dot and a port after its name it is not refused. -/
theorem dot_and_port_pass : ¬Answered "ads.example.com".toList ⟨ads, true, some 443⟩ := by
  decide

/-- With either alone it is. -/
example : Answered "ads.example.com".toList ⟨ads, true, none⟩ ∧
    Answered "ads.example.com".toList ⟨ads, false, some 443⟩ := by
  decide

end Ads

end FuryBrowser.DomainMatching
