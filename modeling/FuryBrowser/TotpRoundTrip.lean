import FuryBrowser.TotpCoding

/-!
# A seed read back from its link

What is read from a pasted text is written as a link, and the link is read as the same seed: its
secret, hash, digits, period and issuer. An account without a name is given one, and a name with a
colon in it is read as an issuer and a name.
-/

namespace FuryBrowser.Totp

open AgentDisk TextBytes TextLines

section Characters

variable {c : Char} {text : Text}

/-- A character that a value in a link may have. -/
def InValue (c : Char) : Prop :=
  isWhiteSpace c = false ∧ c ≠ '&' ∧ c ≠ '?' ∧ c ≠ '/' ∧ c ≠ '=' ∧ c ≠ ':'

instance : Decidable (InValue c) := by
  unfold InValue
  infer_instance

theorem inValue_writtenByte (b : UInt8) : ∀ c ∈ writtenByte b, InValue c := by
  have hall : ∀ n < 256, ∀ c ∈ writtenByte (.ofNat n), InValue c := by
    intro n hn
    apply forall_mem_of_all
    revert n
    decide +kernel
  have hb := hall b.toNat b.toNat_lt
  rwa [UInt8.ofNat_toNat] at hb

theorem inValue_percentEncode (text : Text) : ∀ c ∈ percentEncode text, InValue c := by
  intro c hc
  rw [percentEncode_eq] at hc
  obtain ⟨b, -, hin⟩ := List.mem_flatMap.mp hc
  exact inValue_writtenByte b c hin

/-- A character that stands for itself. -/
def IsBare (c : Char) : Prop := c.toNat < 0x80 ∧ isPlain (.ofNat c.toNat) = true

instance : Decidable (IsBare c) := by
  unfold IsBare
  infer_instance

/-- A text of such characters is written as it is. -/
theorem percentEncode_bare (h : ∀ c ∈ text, IsBare c) : percentEncode text = text := by
  induction text with
  | nil => rfl
  | cons c rest ih =>
    obtain ⟨hlow, hplain⟩ := h c List.mem_cons_self
    have hnat : (UInt8.ofNat c.toNat).toNat = c.toNat :=
      UInt8.toNat_ofNat_of_lt' (by simp [UInt8.size]; omega)
    have hc : writtenByte (.ofNat c.toNat) = [c] := by
      rw [writtenByte, if_pos hplain, hnat, Char.ofNat_toNat]
    have hrest := ih fun d hd => h d (List.mem_cons_of_mem _ hd)
    rw [percentEncode_eq] at hrest
    rw [percentEncode_eq, bytesOf_cons, utf8EncodeChar_low hlow, List.singleton_append,
      List.flatMap_cons, hc, hrest, List.singleton_append]

theorem isBare_base32Char (v : ℕ) : IsBare (base32Char v) := by
  have hall : ∀ n < 32, IsBare (base32Char n) := by decide
  have hmod : base32Char v = base32Char (v % 32) := by rw [base32Char, base32Char, Nat.mod_mod]
  rw [hmod]
  exact hall (v % 32) (Nat.mod_lt _ (by decide))

theorem isBare_base32Push (bits nbits : ℕ) : ∀ c ∈ (base32Push bits nbits).1, IsBare c := by
  induction nbits using Nat.strong_induction_on with
  | _ nbits ih =>
    intro c hc
    rcases Nat.lt_or_ge nbits 5 with hlt | hge
    · have hnone : (base32Push bits nbits).1 = [] := by
        interval_cases nbits <;> rfl
      rw [hnone] at hc
      cases hc
    · obtain ⟨n, rfl⟩ := Nat.exists_eq_add_of_le' hge
      rw [base32Push] at hc
      rcases List.mem_cons.mp hc with rfl | hin
      · exact isBare_base32Char _
      · exact ih n (by omega) c hin

theorem isBare_base32Encode (secret : Bytes) : ∀ c ∈ base32Encode secret, IsBare c := by
  have hchars (bytes : Bytes) (bits nbits : ℕ) :
      ∀ c ∈ base32Chars bits nbits bytes, IsBare c := by
    induction bytes generalizing bits nbits with
    | nil =>
      intro c hc
      rw [base32Chars] at hc
      split at hc
      · rw [List.mem_singleton.mp hc]
        exact isBare_base32Char _
      · cases hc
    | cons b rest ih =>
      intro c hc
      simp only [base32Chars] at hc
      rcases List.mem_append.mp hc with hin | hin
      · exact isBare_base32Push _ (nbits + 8) c hin
      · exact ih _ _ c hin
  exact hchars secret 0 0

theorem isBare_toDigits (n : ℕ) : ∀ c ∈ Nat.toDigits 10 n, IsBare c := by
  intro c hc
  have hdigit := digits_of_toDigits hc
  have hrange : 48 ≤ c.toNat ∧ c.toNat ≤ 57 := by
    simpa [Char.isDigit, UInt32.le_iff_toNat_le] using hdigit
  have hall : ∀ k < 58, 48 ≤ k → IsBare (.ofNat k) := by decide
  have hbare := hall c.toNat (by omega) hrange.1
  rwa [Char.ofNat_toNat] at hbare

theorem isBare_asStr (algorithm : Algorithm) : ∀ c ∈ algorithm.asStr, IsBare c := by
  cases algorithm <;> exact forall_mem_of_all (by decide)

end Characters

section Values

/-- A number is read from its digits. -/
theorem parseUnsigned_toDigits {max n : ℕ} (h : n ≤ max) :
    parseUnsigned max (Nat.toDigits 10 n) = some n := by
  unfold parseUnsigned
  dsimp only
  split
  · rename_i rest heq
    have hplus := digits_of_toDigits (n := n) (by rw [heq]; exact List.mem_cons_self)
    exact absurd hplus (by decide)
  · rw [decimalValue_toDigits]
    exact Option.filter_eq_some_iff.mpr ⟨rfl, decide_eq_true h⟩

theorem algorithm_parse_asStr (algorithm : Algorithm) :
    Algorithm.parse algorithm.asStr = some algorithm := by
  cases algorithm <;> decide

variable {query : Query} {value : Text}

/-- What a pair says under a name. -/
def Query.set (query : Query) (name : String) (value : Text) : Query :=
  if name = "secret" then { query with secret := base32Decode value }
  else if name = "digits" then
    { query with digits := (parseUnsigned (2 ^ 32 - 1) value).getD 6 }
  else if name = "period" then
    { query with period := (parseUnsigned (2 ^ 64 - 1) value).getD 30 }
  else if name = "algorithm" then
    { query with algorithm := (Algorithm.parse value).getD .sha1 }
  else if name = "issuer" then { query with issuer := some value }
  else query

/-- A pair that is read says something under its name. -/
theorem Query.read_ok {pair : Text} {after : Query} (h : query.read pair = .ok after) :
    ∃ name value, after = query.set name value := by
  unfold Query.read at h
  simp only [bind, Except.bind] at h
  split at h
  · cases h
  · rename_i value hvalue
    refine ⟨.ofList (((splitOnce '=' pair).getD (pair, [])).1.map Char.toLower), value, ?_⟩
    unfold Query.set
    split_ifs at h ⊢ <;> cases h <;> rfl

/-- A pair as it is written. -/
def writtenPair (name : String) (value : Text) : Text := name.toList ++ '=' :: percentEncode value

/-- A pair is read as it was written. -/
theorem Query.read_written (name : String) (hname : '=' ∉ name.toList)
    (hlower : name.toList.map Char.toLower = name.toList) :
    query.read (writtenPair name value) =
      .ok (query.set name value) := by
  unfold Query.read Query.set writtenPair
  rw [splitOnce_append hname]
  simp only [Option.getD_some, percentDecode_percentEncode, bind, Except.bind, hlower,
    String.ofList_toList]
  split_ifs <;> rfl

/-- What holds without a pair, and is kept by every one, holds of a query that is read. -/
theorem readPairs_keeps {P : Query → Prop} {text : Text} (hinitial : P .initial)
    (hset : ∀ query name value, P query → P (query.set name value))
    (h : readPairs text = .ok query) : P query := by
  have hfold (pairs : List Text) (before : Query) (hbefore : P before)
      (hread : pairs.foldlM Query.read before = .ok query) : P query := by
    induction pairs generalizing before with
    | nil =>
      cases hread
      exact hbefore
    | cons pair rest ih =>
      rw [List.foldlM_cons] at hread
      cases hpair : before.read pair with
      | error e =>
        rw [hpair] at hread
        cases hread
      | ok after =>
        rw [hpair] at hread
        obtain ⟨name, value, rfl⟩ := Query.read_ok hpair
        exact ih _ (hset before name value hbefore) hread
  exact hfold _ _ hinitial h

theorem readPairs_period {text : Text} (h : readPairs text = .ok query) :
    query.period ≤ 2 ^ 64 - 1 := by
  apply readPairs_keeps (by decide) _ h
  intro query name value hquery
  have hread : (parseUnsigned (2 ^ 64 - 1) value).getD 30 ≤ 2 ^ 64 - 1 := by
    cases hvalue : parseUnsigned (2 ^ 64 - 1) value with
    | none => decide
    | some n =>
      unfold parseUnsigned at hvalue
      exact of_decide_eq_true (Option.filter_eq_some_iff.mp hvalue).2
  unfold Query.set
  split_ifs
  · exact hquery
  · exact hquery
  · exact hread
  · exact hquery
  · exact hquery
  · exact hquery

theorem base32Decode_ne_nil {text : Text} {secret : Bytes} (h : base32Decode text = some secret) :
    secret ≠ [] := of_decide_eq_true (Option.filter_eq_some_iff.mp h).2

theorem readPairs_secret {text : Text} (h : readPairs text = .ok query) :
    ∀ secret, query.secret = some secret → secret ≠ [] := by
  apply readPairs_keeps (by rintro secret ⟨⟩) _ h
  intro query name value hquery secret hsecret
  unfold Query.set at hsecret
  split_ifs at hsecret
  · exact base32Decode_ne_nil hsecret
  · exact hquery secret hsecret
  · exact hquery secret hsecret
  · exact hquery secret hsecret
  · exact hquery secret hsecret
  · exact hquery secret hsecret

end Values

section Links

/-- The query of a seed's link. -/
def Totp.query (t : Totp) : Text :=
  writtenPair "secret" (base32Encode t.secret) ++ '&' ::
    (writtenPair "algorithm" t.algorithm.asStr ++ '&' ::
      (writtenPair "digits" (Nat.toDigits 10 t.digits) ++ '&' ::
        (writtenPair "period" (Nat.toDigits 10 t.period) ++
          match t.issuer with
          | some issuer => '&' :: writtenPair "issuer" issuer
          | none => [])))

theorem toUri_eq (t : Totp) :
    t.toUri = scheme ++ ("totp".toList ++ '/' ::
      (percentEncode (t.label.getD "account".toList) ++ '?' :: t.query)) := by
  have hsecret := percentEncode_bare (isBare_base32Encode t.secret)
  have halgorithm := percentEncode_bare (isBare_asStr t.algorithm)
  have hdigits := percentEncode_bare (isBare_toDigits t.digits)
  have hperiod := percentEncode_bare (isBare_toDigits t.period)
  rw [Totp.toUri, Totp.query, writtenPair, writtenPair, writtenPair, writtenPair, hsecret,
    halgorithm, hdigits, hperiod]
  cases t.issuer <;> simp [writtenPair]

/-- No mark between pairs stands in one. -/
theorem writtenPair_free (name : String) (value : Text) (h : '&' ∉ name.toList) :
    '&' ∉ writtenPair name value := by
  intro hin
  rcases List.mem_append.mp hin with hname | hvalue
  · exact h hname
  · rcases List.mem_cons.mp hvalue with heq | hcoded
    · exact absurd heq (by decide)
    · exact (inValue_percentEncode value _ hcoded).2.1 rfl

theorem writtenPair_ne_nil (name : String) (value : Text) : writtenPair name value ≠ [] := by
  simp [writtenPair]

/-- What the pairs of a seed's link say is what the seed has. -/
theorem readPairs_query {t : Totp} (hsecret : t.secret ≠ []) (hdigits : t.digits ≤ 10)
    (hperiod : t.period ≤ 2 ^ 64 - 1) :
    readPairs t.query = .ok ⟨some t.secret, t.digits, t.period, t.algorithm, t.issuer⟩ := by
  have hone (name : String) (value : Text) (h : '&' ∉ name.toList) :=
    splitAt_of_notMem (writtenPair_free name value h)
  have hfour : splitAt '&' t.query = [writtenPair "secret" (base32Encode t.secret),
      writtenPair "algorithm" t.algorithm.asStr, writtenPair "digits" (Nat.toDigits 10 t.digits),
      writtenPair "period" (Nat.toDigits 10 t.period)] ++
        t.issuer.toList.map (writtenPair "issuer") := by
    rw [Totp.query, splitAt_append, splitAt_append, splitAt_append, hone _ _ (by decide),
      hone _ _ (by decide), hone _ _ (by decide)]
    cases t.issuer with
    | none =>
      dsimp only
      rw [List.append_nil, hone _ _ (by decide)]
      rfl
    | some issuer =>
      dsimp only
      rw [splitAt_append, hone _ _ (by decide), hone _ _ (by decide)]
      rfl
  have hall : ∀ pair ∈ splitAt '&' t.query, decide (pair ≠ []) = true := by
    intro pair hpair
    rw [hfour] at hpair
    obtain ⟨name, value, rfl⟩ : ∃ name value, pair = writtenPair name value := by
      rcases List.mem_append.mp hpair with hin | hin
      · simp only [List.mem_cons, List.not_mem_nil, or_false] at hin
        rcases hin with rfl | rfl | rfl | rfl <;> exact ⟨_, _, rfl⟩
      · obtain ⟨issuer, -, rfl⟩ := List.mem_map.mp hin
        exact ⟨_, _, rfl⟩
    exact decide_eq_true (writtenPair_ne_nil name value)
  have h32 : parseUnsigned (2 ^ 32 - 1) (Nat.toDigits 10 t.digits) = some t.digits :=
    parseUnsigned_toDigits (Nat.le_trans hdigits (by decide))
  have h64 := parseUnsigned_toDigits hperiod
  rw [readPairs, List.filter_eq_self.mpr hall, hfour, List.foldlM_append]
  simp only [List.foldlM_cons, List.foldlM_nil]
  rw [Query.read_written "secret" (by decide) (by decide)]
  simp only [bind, Except.bind]
  rw [Query.read_written "algorithm" (by decide) (by decide)]
  simp only
  rw [Query.read_written "digits" (by decide) (by decide)]
  simp only
  rw [Query.read_written "period" (by decide) (by decide)]
  simp only [Query.set, Query.initial, String.reduceEq, if_true, if_false, h32, h64,
    algorithm_parse_asStr, base32Decode_base32Encode hsecret, Option.getD_some, pure, Except.pure]
  cases t.issuer with
  | none => rfl
  | some issuer =>
    simp only [Option.toList_some, List.map_cons, List.map_nil, List.foldlM_cons, List.foldlM_nil]
    rw [Query.read_written "issuer" (by decide) (by decide)]
    rfl

theorem writtenPair_solid (name : String) (value : Text)
    (h : ∀ c ∈ name.toList, isWhiteSpace c = false) :
    ∀ c ∈ writtenPair name value, isWhiteSpace c = false := by
  intro c hc
  rcases List.mem_append.mp hc with hname | hvalue
  · exact h c hname
  · rcases List.mem_cons.mp hvalue with rfl | hcoded
    · decide
    · exact (inValue_percentEncode value c hcoded).1

theorem toUri_solid (t : Totp) : ∀ c ∈ t.toUri, isWhiteSpace c = false := by
  have hquery : ∀ c ∈ t.query, isWhiteSpace c = false := by
    intro c hc
    simp only [Totp.query, List.mem_append, List.mem_cons] at hc
    rcases hc with hin | rfl | hin | rfl | hin | rfl | hin | hin
    · exact writtenPair_solid _ _ (forall_mem_of_all (by decide)) c hin
    · decide
    · exact writtenPair_solid _ _ (forall_mem_of_all (by decide)) c hin
    · decide
    · exact writtenPair_solid _ _ (forall_mem_of_all (by decide)) c hin
    · decide
    · exact writtenPair_solid _ _ (forall_mem_of_all (by decide)) c hin
    · cases hissuer : t.issuer with
      | none =>
        rw [hissuer] at hin
        cases hin
      | some issuer =>
        rw [hissuer] at hin
        rcases List.mem_cons.mp hin with rfl | hpair
        · decide
        · exact writtenPair_solid _ _ (forall_mem_of_all (by decide)) c hpair
  intro c hc
  simp only [toUri_eq, List.mem_append, List.mem_cons] at hc
  rcases hc with hin | hin | rfl | hin | rfl | hin
  · exact forall_mem_of_all (p := (isWhiteSpace · = false)) (by decide) c hin
  · exact forall_mem_of_all (p := (isWhiteSpace · = false)) (by decide) c hin
  · decide
  · exact (inValue_percentEncode _ c hin).1
  · decide
  · exact hquery c hin

/-- A link is read as the seed it was written of, but for the names in its label. -/
theorem parse_toUri {t : Totp} (hsecret : t.secret ≠ []) (hdigits : t.digits ≤ 10)
    (hperiod : t.period ≤ 2 ^ 64 - 1) :
    parse t.toUri = .ok (made ⟨some t.secret, t.digits, t.period, t.algorithm, t.issuer⟩ t.secret
      (t.label.getD "account".toList)) := by
  have hlabel : '?' ∉ percentEncode (t.label.getD "account".toList) := fun hin =>
    (inValue_percentEncode _ _ hin).2.2.1 rfl
  have hread : LinkRead ("totp".toList ++ '/' ::
      (percentEncode (t.label.getD "account".toList) ++ '?' :: t.query)) "totp".toList
      (percentEncode (t.label.getD "account".toList) ++ '?' :: t.query)
      ⟨some t.secret, t.digits, t.period, t.algorithm, t.issuer⟩
      (t.label.getD "account".toList) := by
    refine ⟨splitOnce_append (by decide), by decide, ?_, ?_⟩
    · rw [labelAndQuery, splitOnce_append hlabel]
      exact readPairs_query hsecret hdigits hperiod
    · rw [labelAndQuery, splitOnce_append hlabel]
      exact percentDecode_percentEncode _
  have hlink := fromUri_ok_iff.mpr ⟨_, _, _, _, _, hread, rfl, rfl⟩
  have hscheme : scheme.isPrefixOf (t.toUri.map Char.toLower) = true := by
    rw [toUri_eq, List.map_append]
    exact List.isPrefixOf_iff_prefix.mpr ⟨_, rfl⟩
  have hne : t.toUri ≠ [] := by
    rw [toUri_eq]
    exact List.append_ne_nil_of_left_ne_nil (by decide) _
  rw [parse, trimText_of_forall (toUri_solid t), if_neg hne, if_pos hscheme, toUri_eq,
    List.drop_left]
  exact hlink

end Links

section Seeds

variable {input : Text} {t : Totp}

/-- The parts of a seed that is read. -/
theorem parse_parts (h : parse input = .ok t) :
    t.secret ≠ [] ∧ t.period ≤ 2 ^ 64 - 1 ∧ t.label ≠ some [] := by
  rcases parse_ok h with ⟨secret, hsecret, rfl⟩ |
    ⟨kind, after, query, label, secret, hread, hsecret, rfl⟩
  · exact ⟨base32Decode_ne_nil hsecret, Nat.le_of_lt (by decide : 30 < 2 ^ 64 - 1), by simp⟩
  · have hperiod := readPairs_period hread.pairs
    refine ⟨readPairs_secret hread.pairs secret hsecret, ?_, ?_⟩
    · exact Nat.max_le.mpr ⟨hperiod, by decide⟩
    · unfold made
      dsimp only
      split_ifs with hnone
      · simp
      · simpa using hnone

/-- What a link says is what it was written of: the code is the same. The account's name is too
when it has no colon, and an account without a name is called `account`. -/
theorem parse_toUri_parse (h : parse input = .ok t) :
    ∃ again, parse t.toUri = .ok again ∧
      again.secret = t.secret ∧ again.algorithm = t.algorithm ∧ again.digits = t.digits ∧
      again.period = t.period ∧
      (∀ account, t.label = some account → ':' ∉ account → again = t) ∧
      (t.label = none → again = { t with label := some "account".toList }) := by
  obtain ⟨hsecret, hperiod, hlabel⟩ := parse_parts h
  obtain ⟨hlow, hhigh⟩ := parse_digits h
  have hone := parse_period h
  have hdigits : max 6 (min t.digits 10) = t.digits := by
    rw [Nat.min_eq_left hhigh, Nat.max_eq_right hlow]
  have hmax : max t.period 1 = t.period := Nat.max_eq_left hone
  refine ⟨_, parse_toUri hsecret hhigh hperiod, rfl, rfl, hdigits, hmax, ?_, ?_⟩
  · intro account haccount hcolon
    have hne : account ≠ [] := by
      rintro rfl
      exact hlabel haccount
    have hnames : namesIn account = (none, account) := by
      rw [namesIn, splitOnce_of_notMem hcolon]
    rw [haccount, Option.getD_some, made, hnames, hdigits, hmax, if_neg hne, ← haccount]
    rfl
  · intro hnone
    have hnames : namesIn "account".toList = (none, "account".toList) := by
      rw [namesIn, splitOnce_of_notMem (by decide)]
    rw [hnone, Option.getD_none, made, hnames, hdigits, hmax, if_neg (by decide)]
    rfl

/-- The seed of a link with an issuer and an account. -/
def named : Text := "otpauth://totp/ACME:alice?secret=GE&algorithm=SHA256&digits=8".toList

theorem parse_toUri_parse_named :
    ∃ again, parse (Totp.toUri ⟨[0x31], 8, 30, .sha256, some "alice".toList,
        some "ACME".toList⟩) = .ok again ∧ again =
      ⟨[0x31], 8, 30, .sha256, some "alice".toList, some "ACME".toList⟩ := by
  have hread : parse named = .ok ⟨[0x31], 8, 30, .sha256, some "alice".toList,
      some "ACME".toList⟩ := by
    decide
  obtain ⟨again, hagain, -, -, -, -, hsame, -⟩ := parse_toUri_parse hread
  exact ⟨again, hagain, hsame _ rfl (by decide)⟩

/-- A bare secret names no account; its link names one. -/
theorem bare_secret_named : ¬∀ input t, parse input = .ok t → parse t.toUri = .ok t := by
  intro hall
  have hread : parse "GE".toList = .ok ⟨[0x31], 6, 30, .sha1, none, none⟩ := by decide
  have hagain : parse (Totp.toUri ⟨[0x31], 6, 30, .sha1, none, none⟩) =
      .ok ⟨[0x31], 6, 30, .sha1, some "account".toList, none⟩ := by
    decide
  have hsame := (hall _ _ hread).symm.trans hagain
  simp at hsame

end Seeds

end FuryBrowser.Totp
