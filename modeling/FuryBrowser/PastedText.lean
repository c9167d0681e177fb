import FuryBrowser.HexExact
import FuryBrowser.TextCuts
import FuryBrowser.Totp
import FuryBrowser.TotpCoding

/-!
# Text that is pasted

A percent sign takes the two bytes after it as digits, and stops the caller where they end inside
a character. A link decodes its label and the value of every pair. With the readers of
hexadecimal, these are the places where a text that somebody pastes can stop the program.
-/

namespace FuryBrowser.PastedText

open AgentDisk TextBytes TextLines TextCuts TextSlices BundleUnpack
open Totp (Error Query percentBytes percentDecode labelAndQuery scheme isContinuation)

/-- Two bytes behind a percent sign end inside a character. -/
def PercentCuts (text : Text) : Prop :=
  ∃ rest, '%' :: rest <:+ text ∧ endsInside 2 rest = true

/-- What a pair of a query says. -/
def valueOf (pair : Text) : Text := ((splitOnce '=' pair).getD (pair, [])).2

/-- A link that is read up to a percent sign that cuts. -/
def LinkCuts (text : Text) : Prop :=
  scheme.isPrefixOf (lowerText (trimText text)) = true ∧ ∃ kind after,
    splitOnce '/' ((trimText text).drop scheme.length) = some (kind, after) ∧
    lowerText kind = "totp".toList ∧
    (PercentCuts (labelAndQuery after).1 ∨
      ∃ pair ∈ splitAt '&' (labelAndQuery after).2, PercentCuts (valueOf pair))

section Percent

variable {b : UInt8} {rest bytes : Bytes} {text : Text} {e : Error}

theorem map_error {f : Bytes → Bytes} {x : Except Error Bytes} :
    x.map f = .error e ↔ x = .error e := by
  cases x <;> simp [Except.map]

/-- A byte stops the decoding when it is a percent sign whose digits are cut, and is something in
front of what the rest becomes otherwise. -/
theorem percentBytes_step (b : UInt8) (rest : Bytes) :
    (b = 0x25 ∧ ∃ c ∈ (rest.drop 2).head?, Continues c) ∧ percentBytes (b :: rest) = .error .panic ∨
      ¬(b = 0x25 ∧ ∃ c ∈ (rest.drop 2).head?, Continues c) ∧
        ∃ f : Bytes → Bytes, percentBytes (b :: rest) = (percentBytes rest).map f := by
  by_cases hb : b = 0x25
  · subst hb
    match rest with
    | [] | [_] => exact .inr ⟨by simp, (0x25 :: ·), rfl⟩
    | hi :: lo :: more =>
      by_cases hcut : (more.head?.map isContinuation).getD false = true
      · refine .inl ⟨⟨rfl, cut_iff.mp hcut⟩, ?_⟩
        rw [percentBytes, if_pos hcut]
      · refine .inr ⟨fun h => hcut (cut_iff.mpr h.2), ?_⟩
        cases hbyte : hexByte hi lo with
        | none =>
          refine ⟨(0x25 :: ·), ?_⟩
          rw [percentBytes, if_neg hcut, hbyte]
        | some b =>
          -- The digits are no percent signs, so each is a byte of what the rest becomes.
          obtain ⟨hhi, hlo⟩ : hi ≠ 0x25 ∧ lo ≠ 0x25 := by
            constructor
            · rintro rfl
              cases hbyte
            · rintro rfl
              have hdigit : hexDigit 0x25 = none := rfl
              rw [hexByte, hdigit] at hbyte
              split at hbyte
              · cases hbyte
              · obtain ⟨_, _, hnone⟩ := Option.bind_eq_some_iff.mp hbyte
                cases hnone
          refine ⟨fun out => b :: out.drop 2, ?_⟩
          rw [percentBytes, if_neg hcut, hbyte, Totp.percentBytes_other hhi,
            Totp.percentBytes_other hlo]
          cases percentBytes more <;> rfl
  · exact .inr ⟨fun h => hb h.1, _, Totp.percentBytes_other hb⟩

theorem percentBytes_error (h : percentBytes bytes = .error e) : e = .panic := by
  induction bytes with
  | nil => cases h
  | cons b rest ih =>
    rcases percentBytes_step b rest with ⟨-, hpanic⟩ | ⟨-, f, hf⟩
    · rw [hpanic] at h
      cases h
      rfl
    · rw [hf, map_error] at h
      exact ih h

/-- Bytes that are no percent sign are in front of what the rest becomes. -/
theorem percentBytes_others (before rest : Bytes) (h : ∀ b ∈ before, b ≠ 0x25) :
    percentBytes (before ++ rest) = .error e ↔ percentBytes rest = .error e := by
  induction before with
  | nil => exact Iff.rfl
  | cons b before ih =>
    rw [List.cons_append, Totp.percentBytes_other (h b List.mem_cons_self), map_error]
    exact ih fun c hc => h c (List.mem_cons_of_mem b hc)

/-- Only a percent sign has the byte of one. -/
theorem utf8EncodeChar_ne_sign {c : Char} (hc : c ≠ '%') :
    ∀ b ∈ String.utf8EncodeChar c, b ≠ 0x25 := by
  rintro _ hb rfl
  apply hc
  have hin : (0x25 : UInt8) ∈ bytesOf [c] := by
    rw [bytesOf_cons]
    exact List.mem_append_left _ hb
  exact (List.mem_singleton.mp (mem_of_mem_bytesOf (by decide) hin)).symm

theorem percentCuts_cons (c : Char) (text : Text) :
    PercentCuts (c :: text) ↔ (c = '%' ∧ endsInside 2 text = true) ∨ PercentCuts text := by
  constructor
  · rintro ⟨rest, hsuffix, hin⟩
    rcases List.suffix_cons_iff.mp hsuffix with heq | hsuffix
    · obtain ⟨rfl, rfl⟩ := List.cons_eq_cons.mp heq
      exact .inl ⟨rfl, hin⟩
    · exact .inr ⟨rest, hsuffix, hin⟩
  · rintro (⟨rfl, hin⟩ | ⟨rest, hsuffix, hin⟩)
    · exact ⟨text, List.suffix_rfl, hin⟩
    · exact ⟨rest, hsuffix.trans (List.suffix_cons c text), hin⟩

theorem not_percentCuts_nil : ¬PercentCuts [] := by
  rintro ⟨rest, hsuffix, -⟩
  cases List.suffix_nil.mp hsuffix

/-- Decoding a text fails exactly where digits are cut. -/
theorem percentDecode_error_iff (text : Text) (e : Error) :
    percentDecode text = .error e ↔ e = .panic ∧ PercentCuts text := by
  have hbytes : percentBytes (bytesOf text) = .error .panic ↔ PercentCuts text := by
    induction text with
    | nil => exact iff_of_false (nomatch ·) not_percentCuts_nil
    | cons c text ih =>
      rw [percentCuts_cons, bytesOf_cons]
      by_cases hc : c = '%'
      · subst hc
        have henc : String.utf8EncodeChar '%' = [0x25] := rfl
        rw [henc, List.singleton_append, endsInside_iff, ← ih]
        rcases percentBytes_step 0x25 (bytesOf text) with ⟨hcut, hpanic⟩ | ⟨hnot, f, hf⟩
        · exact iff_of_true hpanic (.inl ⟨rfl, hcut.2⟩)
        · rw [hf, map_error, or_iff_right fun h => hnot ⟨rfl, h.2⟩]
      · rw [percentBytes_others _ _ (utf8EncodeChar_ne_sign hc), ih, or_iff_right fun h => hc h.1]
  have hmap : percentDecode text = .error e ↔ percentBytes (bytesOf text) = .error e := by
    rw [percentDecode]
    cases percentBytes (bytesOf text) <;> simp [Except.map]
  rw [hmap, ← hbytes]
  constructor
  · intro h
    have hpanic := percentBytes_error h
    subst hpanic
    exact ⟨rfl, h⟩
  · rintro ⟨rfl, h⟩
    exact h

end Percent

section Links

variable {text pair : Text} {query : Query} {e : Error}

/-- A pair fails to be read exactly where its value does. -/
theorem read_error_iff (query : Query) (pair : Text) (e : Error) :
    query.read pair = .error e ↔ e = .panic ∧ PercentCuts (valueOf pair) := by
  rw [← percentDecode_error_iff]
  unfold Query.read valueOf
  simp only [bind, Except.bind]
  split
  · rename_i h
    rw [h]
    simp
  · rename_i value h
    rw [h]
    refine iff_of_false ?_ (nomatch ·)
    split_ifs <;> exact (nomatch ·)

/-- A row of pairs fails to be read exactly where one of them does. -/
theorem readPairs_error_iff (text : Text) (e : Error) : Totp.readPairs text = .error e ↔
    e = .panic ∧ ∃ pair ∈ splitAt '&' text, PercentCuts (valueOf pair) := by
  have hfold (pairs : List Text) (query : Query) : pairs.foldlM Query.read query = .error e ↔
      e = .panic ∧ ∃ pair ∈ pairs, PercentCuts (valueOf pair) := by
    induction pairs generalizing query with
    | nil => exact iff_of_false (nomatch ·) fun ⟨_, pair, hin, _⟩ => nomatch hin
    | cons pair pairs ih =>
      rw [List.foldlM_cons, List.exists_mem_cons_iff]
      cases hread : query.read pair with
      | error f =>
        obtain ⟨rfl, hcuts⟩ := (read_error_iff query pair f).mp hread
        constructor
        · intro h
          cases h
          exact ⟨rfl, .inl hcuts⟩
        · rintro ⟨rfl, -⟩
          rfl
      | ok after =>
        have hnot : ¬PercentCuts (valueOf pair) := by
          intro hcuts
          have herror := (read_error_iff query pair .panic).mpr ⟨rfl, hcuts⟩
          rw [hread] at herror
          cases herror
        rw [or_iff_right hnot]
        exact ih after
  rw [Totp.readPairs, hfold]
  refine and_congr_right fun _ => exists_congr fun pair => and_congr_left fun hcuts => ?_
  rw [List.mem_filter]
  refine and_iff_left (decide_eq_true ?_)
  rintro rfl
  exact not_percentCuts_nil hcuts

/-- A link stops the caller exactly where one of its pairs or its label does. -/
theorem fromUri_panic_iff (rest : Text) : Totp.fromUri rest = .error .panic ↔ ∃ kind after,
    splitOnce '/' rest = some (kind, after) ∧ lowerText kind = "totp".toList ∧
    (PercentCuts (labelAndQuery after).1 ∨
      ∃ pair ∈ splitAt '&' (labelAndQuery after).2, PercentCuts (valueOf pair)) := by
  unfold Totp.fromUri
  cases hsplit : splitOnce '/' rest with
  | none => exact iff_of_false (nomatch ·) fun ⟨_, _, h, _⟩ => nomatch h
  | some parts =>
    obtain ⟨kind, after⟩ := parts
    have hpairs := readPairs_error_iff (labelAndQuery after).2
    have hlabel := percentDecode_error_iff (labelAndQuery after).1
    unfold Totp.readPairs Query.initial at hpairs
    unfold labelAndQuery at hpairs hlabel ⊢
    simp only [bind, Except.bind]
    split
    · rename_i hkind
      refine iff_of_false (nomatch ·) ?_
      rintro ⟨kind', after', heq, htotp, -⟩
      cases heq
      exact hkind htotp
    · rename_i hkind
      have htotp := not_not.mp hkind
      split
      · rename_i f hquery
        obtain ⟨rfl, hcuts⟩ := (hpairs f).mp hquery
        exact iff_of_true rfl ⟨kind, after, rfl, htotp, .inr hcuts⟩
      · rename_i query hquery
        split
        · rename_i f hdecoded
          obtain ⟨rfl, hcuts⟩ := (hlabel f).mp hdecoded
          exact iff_of_true rfl ⟨kind, after, rfl, htotp, .inl hcuts⟩
        · rename_i label hdecoded
          refine iff_of_false ?_ ?_
          · split <;> exact (nomatch ·)
          · rintro ⟨kind', after', heq, -, hcuts | hcuts⟩
            · cases heq
              have herror := (hlabel .panic).mpr ⟨rfl, hcuts⟩
              rw [hdecoded] at herror
              cases herror
            · cases heq
              have herror := (hpairs .panic).mpr ⟨rfl, hcuts⟩
              rw [hquery] at herror
              cases herror

/-- So does a text that is parsed as a seed. -/
theorem parse_panic_iff (text : Text) : Totp.parse text = .error .panic ↔ LinkCuts text := by
  rw [LinkCuts, ← fromUri_panic_iff, lowerText]
  simp only [Totp.parse]
  split
  · rename_i hempty
    rw [hempty]
    refine iff_of_false (fun h => by cases h) fun h => ?_
    cases h.1
  · split
    · rename_i hscheme
      rw [hscheme]
      simp
    · rename_i hscheme
      refine iff_of_false ?_ fun h => hscheme h.1
      rw [Totp.fromSecret]
      split <;> exact fun h => by cases h

end Links

section Whole

variable {text piece : Text}

/-- Digits that are cut in a piece of a text are cut in the text. -/
theorem PercentCuts.within (h : PercentCuts piece) (hin : piece <:+: text) : PercentCuts text := by
  obtain ⟨before, after, rfl⟩ := hin
  obtain ⟨rest, ⟨start, rfl⟩, hcut⟩ := h
  refine ⟨rest ++ after, ⟨before ++ start, ?_⟩, endsInside_append hcut after⟩
  simp

/-- A text is trimmed to a piece of it. -/
theorem trimText_within (text : Text) : trimText text <:+: text := by
  have hstart : text.dropWhile isWhiteSpace <:+ text := List.dropWhile_suffix _
  have hend : trimText text <+: text.dropWhile isWhiteSpace := by
    rw [trimText, ← List.reverse_suffix, List.reverse_reverse]
    exact List.dropWhile_suffix _
  exact hend.isInfix.trans hstart.isInfix

/-- The parts of a text that is split once. -/
theorem splitOnce_within {at_ : Char} {a b : Text} (h : splitOnce at_ text = some (a, b)) :
    a <:+: text ∧ b <:+: text := by
  rw [splitOnce_eq h]
  exact ⟨⟨[], at_ :: b, by simp⟩, ⟨a ++ [at_], [], by simp⟩⟩

/-- The first part of a text that is split everywhere begins the text. -/
theorem splitAt_begins {at_ : Char} {parts : List Text} (h : splitAt at_ text = piece :: parts) :
    piece <+: text := by
  induction text generalizing piece parts with
  | nil =>
    cases h
    exact List.nil_prefix
  | cons c rest ih =>
    rw [splitAt] at h
    split at h
    · cases h
      exact List.nil_prefix
    · split at h
      · cases h
        exact ⟨rest, rfl⟩
      · rename_i part parts' hsplit
        cases h
        exact List.prefix_cons_inj c |>.mpr (ih hsplit)

theorem splitAt_within {at_ : Char} (h : piece ∈ splitAt at_ text) : piece <:+: text := by
  induction text generalizing piece with
  | nil =>
    obtain rfl := List.mem_singleton.mp h
    exact List.infix_rfl
  | cons c rest ih =>
    rw [splitAt] at h
    split at h
    · rcases List.mem_cons.mp h with rfl | hin
      · exact List.nil_infix
      · exact (ih hin).trans (List.suffix_cons c rest).isInfix
    · split at h
      · obtain rfl := List.mem_singleton.mp h
        exact ⟨[], rest, rfl⟩
      · rename_i part parts hsplit
        rcases List.mem_cons.mp h with rfl | hin
        · exact ((List.prefix_cons_inj c).mpr (splitAt_begins hsplit)).isInfix
        · have hrest : piece ∈ splitAt at_ rest := by
            rw [hsplit]
            exact List.mem_cons_of_mem part hin
          exact (ih hrest).trans (List.suffix_cons c rest).isInfix

/-- What stops the caller in a link would stop it in a percent-encoded text. -/
theorem LinkCuts.percentCuts (h : LinkCuts text) : PercentCuts text := by
  obtain ⟨-, kind, after, hsplit, -, hcuts⟩ := h
  have hdrop : (trimText text).drop scheme.length <:+: text :=
    (List.drop_suffix _ _).isInfix.trans (trimText_within text)
  have hafter : after <:+: text := (splitOnce_within hsplit).2.trans hdrop
  have hparts : (labelAndQuery after).1 <:+: after ∧ (labelAndQuery after).2 <:+: after := by
    rw [labelAndQuery]
    cases hquery : splitOnce '?' after with
    | none => exact ⟨List.infix_rfl, List.nil_infix⟩
    | some parts => exact splitOnce_within hquery
  rcases hcuts with hcuts | ⟨pair, hpair, hcuts⟩
  · exact hcuts.within (hparts.1.trans hafter)
  · have hvalue : valueOf pair <:+: pair := by
      rw [valueOf]
      cases hsplit : splitOnce '=' pair with
      | none => exact List.nil_infix
      | some parts => exact (splitOnce_within hsplit).2
    exact hcuts.within (hvalue.trans ((splitAt_within hpair).trans (hparts.2.trans hafter)))

/-- A text does no harm to what reads it: everything that decodes it answers, and the readers of
hexadecimal are what they are meant to be. -/
structure Answered (text : Text) : Prop where
  /-- `percent_decode`. -/
  percent : percentDecode text ≠ .error .panic
  /-- `Totp::parse`. -/
  seed : Totp.parse text ≠ .error .panic
  api : Exact unhexBytes (fun _ => True) text
  /-- What `profile.uploadTo` reads. -/
  raw : Exact uploadRaw (fun _ => True) text
  upload : Exact uploadKey (· = 64) text
  bundle : Exact unhexKey (· = 64) text

/-- A text has nothing in it that the readers stumble over. -/
structure Harmless (text : Text) : Prop where
  /-- No digits behind a percent sign are cut. -/
  percent : ¬PercentCuts text
  /-- No pairs lead to a slice that is none. -/
  key : ¬KeyCuts text
  /-- No plus sign stands in a text of pairs. -/
  sign : ¬(PairsOnly text ∧ '+' ∈ text)

/-- A text is answered exactly when it is harmless. -/
theorem answered_iff_harmless (text : Text) : Answered text ↔ Harmless text := by
  constructor
  · intro h
    obtain ⟨hkey, hsign⟩ := (uploadRaw_exact_iff text).mp h.raw
    exact ⟨fun hcuts => h.percent ((percentDecode_error_iff text .panic).mpr ⟨rfl, hcuts⟩), hkey,
      hsign⟩
  · rintro ⟨hpercent, hkey, hsign⟩
    have hraw := (uploadRaw_exact_iff text).mpr ⟨hkey, hsign⟩
    refine ⟨?_, ?_, unhexBytes_exact hraw, hraw, uploadKey_exact hraw, unhexKey_exact hraw⟩
    · exact fun hpanic => hpercent ((percentDecode_error_iff text .panic).mp hpanic).2
    · exact fun hpanic => hpercent ((parse_panic_iff text).mp hpanic).percentCuts

/-- A link with a percent sign before a wide character stops the program that it is pasted into. -/
theorem pasted_link_cut : ¬∀ text, Answered text := by
  intro h
  have hpanic : Totp.parse "otpauth://totp/%€?secret=GE".toList = .error .panic := by
    decide
  exact (h _).seed hpanic

example : (uploadRaw "a".toList, uploadRaw "+f".toList) = (.error .panic, .ok [15]) := by
  decide

end Whole

end FuryBrowser.PastedText
