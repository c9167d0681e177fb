import FuryBrowser.ProxyList

/-!
# How a line is read again

Whatever of a line is read again is shorter, or has fewer commas, so a line calls for itself no
more often than it is given turns, and the reading of a line is its own step. Every reading ends at
a part of the line that is read by its shape.
-/

namespace FuryBrowser.ProxyList

open AgentDisk TextBytes TextLines TextFields ProgramRules

section Steps

variable {again other : Text → Except ParseError ParsedProxy} {line rest head joined : Text}
  {p : ParsedProxy}

/-- Two ways to read again that are the same for what is less than the line. -/
def SameBelow (line : Text) (again other : Text → Except ParseError ParsedProxy) : Prop :=
  ∀ part, weight ',' part < weight ',' line → again part = other part

theorem readRow_weight (hrow : isRow line = true) (h : readRow line = .ok joined) :
    weight ',' joined < weight ',' line := by
  have hcomma : ',' ∈ line := by
    simp only [isRow, Bool.and_eq_true, decide_eq_true_eq] at hrow
    exact hrow.1.1
  have hcount : 0 < line.count ',' := List.count_pos_iff.mpr hcomma
  have hfields : joined = joinWith ':' ((splitAt ',' line).map trimText) := by
    unfold readRow at h
    dsimp only at h
    split_ifs at h
    cases h
    rfl
  have hne : (splitAt ',' line).map trimText ≠ [] := fun hnil =>
    splitAt_ne_nil line (List.map_eq_nil_iff.mp hnil)
  have hmarks : ':' ≠ ',' := by decide
  have hjoin := weight_joinWith hmarks _ hne
  have hpieces : fieldsWeight ',' (splitAt ',' line) = line.length + 1 := fieldsWeight_splitAt
  have htrim := fieldsWeight_trimText ',' (splitAt ',' line)
  rw [← hfields] at hjoin
  rw [weight] at hjoin ⊢
  rw [weight]
  omega

theorem parseStrictBy_congr (h : SameBelow line again other) :
    parseStrictBy again line = parseStrictBy other line := by
  unfold parseStrictBy
  dsimp only
  split
  · rfl
  · split
    · rename_i hrow
      cases hread : readRow (trimText line) with
      | error e => rfl
      | ok joined =>
        exact h joined (Nat.lt_of_lt_of_le (readRow_weight hrow hread) (weight_trimText ',' line))
    · rfl

theorem splitOnceAny_weight {marks : List Char} (h : splitOnceAny marks (trimText line) =
    some (head, rest)) : weight ',' rest < weight ',' line := by
  obtain ⟨c, -, htext⟩ := splitOnceAny_eq h
  have htrim := weight_trimText ',' line
  rw [htext, weight_append, weight_cons] at htrim
  split at htrim <;> omega

theorem wordReadingBy_congr (h : SameBelow line again other) :
    wordReadingBy again line = wordReadingBy other line := by
  unfold wordReadingBy
  cases hsplit : splitOnceAny [' ', '\t', ':'] (trimText line) with
  | none => rfl
  | some parts =>
    obtain ⟨head, rest⟩ := parts
    have hsame := h rest (splitOnceAny_weight hsplit)
    simp only [Option.bind_eq_bind, Option.bind_some, hsame]

theorem rejoined_weight (h : rejoined line = some joined) :
    weight ',' joined ≤ weight ',' line := by
  have hmarks : ':' ≠ ',' := by decide
  have hkept (p : Text → Bool) : weight ',' (joinWith ':' ((splitAny separators
      (trimText line)).filter p)) ≤ weight ',' line := by
    by_cases hnil : (splitAny separators (trimText line)).filter p = []
    · rw [hnil]
      exact Nat.zero_le _
    · have hpieces : fieldsWeight ',' (splitAny separators (trimText line)) =
          weight ',' (trimText line) + 1 := fieldsWeight_splitAny (by decide)
      have hfilter := fieldsWeight_filter ',' (splitAny separators (trimText line)) p
      have htrim := weight_trimText ',' line
      have hjoin := weight_joinWith hmarks _ hnil
      omega
  unfold rejoined at h
  dsimp only at h
  split at h
  · cases h
    exact hkept _
  · cases h

theorem parseLineBy_congr (h : SameBelow line again other) :
    parseLineBy again line = parseLineBy other line := by
  have hrejoined (joined : Text) (hjoined : rejoined line = some joined) :
      parseStrictBy again joined = parseStrictBy other joined :=
    parseStrictBy_congr fun part hpart =>
      h part (Nat.lt_of_lt_of_le hpart (rejoined_weight hjoined))
  unfold parseLineBy
  rw [parseStrictBy_congr h, wordReadingBy_congr h]
  cases hjoined : rejoined line with
  | none => rfl
  | some joined => simp only [Option.bind_some, hrejoined joined hjoined]

/-- More turns than a line needs change nothing. -/
theorem parseLineUpTo_eq (m n : ℕ) (line : Text) (hm : weight ',' line < m)
    (hn : weight ',' line < n) : parseLineUpTo m line = parseLineUpTo n line := by
  induction m generalizing n line with
  | zero => omega
  | succ m ih =>
    cases n with
    | zero => omega
    | succ n =>
      exact parseLineBy_congr fun part hpart => ih n part (by omega) (by omega)

/-- Reading a line is a step that reads again in the same way. -/
theorem parseLine_eq (line : Text) : parseLine line = parseLineBy parseLine line :=
  parseLineBy_congr fun part hpart => parseLineUpTo_eq _ _ part hpart (Nat.lt_succ_self _)

end Steps

section Outcomes

variable {line rest head joined scheme : Text} {p q : ParsedProxy}

/-- The reading by a word in front. -/
def wordReading (line : Text) : Option ParsedProxy := wordReadingBy parseLine line

theorem parseStrict_ok : parseStrict line = .ok p ↔ trimText line ≠ [] ∧
    (isRow (trimText line) = true ∧ (∃ joined, readRow (trimText line) = .ok joined ∧
      parseLine joined = .ok p) ∨
    isRow (trimText line) = false ∧ parseShape (trimText line) = .ok p) := by
  unfold parseStrict parseStrictBy
  dsimp only
  by_cases hnil : trimText line = []
  · simp [hnil]
  · rw [if_neg hnil]
    cases hrow : isRow (trimText line) with
    | true => simp [hnil, bind_eq_ok]
    | false => simp [hnil]

theorem wordReading_some : wordReading line = some p ↔
    ∃ head rest scheme q, splitOnceAny [' ', '\t', ':'] (trimText line) = some (head, rest) ∧
      "//".toList.isPrefixOf rest = false ∧ normaliseScheme head = .ok scheme ∧
      parseLine rest = .ok q ∧ q.shape ≠ .url ∧ p = { q with scheme, shape := .url } := by
  unfold wordReading wordReadingBy
  constructor
  · intro h
    obtain ⟨⟨head, rest⟩, hsplit, h⟩ := Option.bind_eq_some_iff.mp h
    dsimp only at h
    split at h
    · cases h
    · rename_i hslashes
      split at h
      · rename_i scheme q hscheme hread
        split at h
        · rename_i hshape
          exact ⟨head, rest, scheme, q, hsplit, Bool.not_eq_true _ ▸ hslashes, hscheme, hread,
            hshape, (Option.some.inj h).symm⟩
        · cases h
      · cases h
  · rintro ⟨head, rest, scheme, q, hsplit, hslashes, hscheme, hread, hshape, rfl⟩
    rw [hsplit]
    change (if _ then _ else _) = _
    rw [hslashes, if_neg Bool.false_ne_true, hscheme, hread]
    exact if_pos hshape

theorem parseLine_ok : parseLine line = .ok p ↔ parseStrict line = .ok p ∨
    (∀ q, parseStrict line ≠ .ok q) ∧ (wordReading line = some p ∨ wordReading line = none ∧
      ∃ joined, rejoined line = some joined ∧ parseStrict joined = .ok p) := by
  have hparts : parseStrictBy parseLine = parseStrict := rfl
  have hwords : wordReadingBy parseLine = wordReading := rfl
  rw [parseLine_eq, parseLineBy, hparts, hwords]
  cases hstrict : parseStrict line with
  | ok q => simp
  | error e =>
    cases hword : wordReading line with
    | some q => simp
    | none =>
      cases hjoined : rejoined line with
      | none => simp
      | some joined => cases hread : parseStrict joined <;> simp [hread, Except.toOption]

end Outcomes

section Shapes

/-- What a line is read as by its shape. -/
inductive Reads (line : Text) : ParsedProxy → Prop
  /-- `scheme://host:port:user:pass`. -/
  | supplier {scheme rest kind host field user pass : Text} {port : ℕ}
    (hscheme : splitOnceText schemeMark line = some (scheme, rest))
    (hkind : normaliseScheme scheme = .ok kind)
    (hfields : supplierFields rest = some (host, field, user, pass))
    (hport : parsePort field = .ok port) : Reads line ⟨kind, host, port, some user, some pass, .url⟩
  | url {scheme rest kind hostport host : Text} {username password : Option Text} {port : ℕ}
    (hscheme : splitOnceText schemeMark line = some (scheme, rest))
    (hkind : normaliseScheme scheme = .ok kind) (hfields : supplierFields rest = none)
    (hauth : splitAtSign rest = .ok (username, password, hostport))
    (hhost : splitHostPort hostport = .ok (host, port)) :
    Reads line ⟨kind, host, port, username, password, .url⟩
  /-- `host:port:user:p@ss`. -/
  | password {host field user pass : Text} {port : ℕ}
    (hscheme : splitOnceText schemeMark line = none)
    (hfields : passwordFields line = some (host, field, user, pass))
    (hport : parsePort field = .ok port) :
    Reads line ⟨http, host, port, some user, some pass, .hostPortUserPass⟩
  /-- `user:pass@host:port`. -/
  | atSign {hostport host : Text} {username password : Option Text} {port : ℕ}
    (hscheme : splitOnceText schemeMark line = none) (hfields : passwordFields line = none)
    (hat : '@' ∈ line) (hauth : splitAtSign line = .ok (username, password, hostport))
    (hhost : splitHostPort hostport = .ok (host, port)) :
    Reads line ⟨http, host, port, username, password, .atSign⟩
  /-- `host:port@user:pass`. -/
  | last {hostport : Text} {username password : Option Text} {p : ParsedProxy}
    (hscheme : splitOnceText schemeMark line = none) (hfields : passwordFields line = none)
    (hat : '@' ∈ line) (hauth : splitAtSign line = .ok (username, password, hostport))
    (hhost : ∀ parts, splitHostPort hostport ≠ .ok parts)
    (hlast : credentialsLast line = some p) : Reads line p
  /-- Fields with colons between them. -/
  | colons {fields : List Text} {p : ParsedProxy}
    (hscheme : splitOnceText schemeMark line = none) (hat : '@' ∉ line)
    (hfields : splitColons line = .ok fields) (hread : parseFields fields = .ok p) : Reads line p

variable {line : Text} {p : ParsedProxy}

theorem passwordFields_at {parts : Text × Text × Text × Text}
    (h : passwordFields line = some parts) : '@' ∈ line := by
  unfold passwordFields at h
  split at h
  · split at h
    · rename_i hall
      simp only [Bool.and_eq_true, decide_eq_true_eq] at hall
      exact hall.1.1.1.1.1
    · cases h
  · cases h

/-- A line is read by its shape in these ways and no others. -/
theorem parseShape_ok : parseShape line = .ok p ↔ Reads line p := by
  constructor
  · intro h
    unfold parseShape at h
    split at h
    · rename_i scheme rest hscheme
      obtain ⟨kind, hkind, h⟩ := bind_eq_ok.mp h
      split at h
      · rename_i host field user pass hfields
        obtain ⟨port, hport, h⟩ := bind_eq_ok.mp h
        cases h
        exact .supplier hscheme hkind hfields hport
      · rename_i hfields
        obtain ⟨⟨username, password, hostport⟩, hauth, h⟩ := bind_eq_ok.mp h
        obtain ⟨⟨host, port⟩, hhost, h⟩ := bind_eq_ok.mp h
        cases h
        exact .url hscheme hkind hfields hauth hhost
    · rename_i hscheme
      split at h
      · rename_i host field user pass hfields
        obtain ⟨port, hport, h⟩ := bind_eq_ok.mp h
        cases h
        exact .password hscheme hfields hport
      · rename_i hfields
        split at h
        · rename_i hat
          obtain ⟨⟨username, password, hostport⟩, hauth, h⟩ := bind_eq_ok.mp h
          dsimp only at h
          cases hhost : splitHostPort hostport with
          | ok parts =>
            rw [hhost] at h
            cases h
            exact .atSign hscheme hfields hat hauth hhost
          | error e =>
            rw [hhost] at h
            dsimp only at h
            cases hlast : credentialsLast line with
            | none =>
              rw [hlast] at h
              cases h
            | some q =>
              rw [hlast] at h
              cases h
              exact .last hscheme hfields hat hauth (fun parts hparts => by
                rw [hhost] at hparts
                cases hparts) hlast
        · rename_i hat
          obtain ⟨fields, hcolons, h⟩ := bind_eq_ok.mp h
          exact .colons hscheme hat hcolons h
  · intro h
    unfold parseShape
    cases h with
    | supplier hscheme hkind hfields hport =>
      rw [hscheme]
      exact bind_eq_ok.mpr ⟨_, hkind, by
        rw [hfields]
        exact bind_eq_ok.mpr ⟨_, hport, rfl⟩⟩
    | url hscheme hkind hfields hauth hhost =>
      rw [hscheme]
      exact bind_eq_ok.mpr ⟨_, hkind, by
        rw [hfields]
        exact bind_eq_ok.mpr ⟨_, hauth, bind_eq_ok.mpr ⟨_, hhost, rfl⟩⟩⟩
    | password hscheme hfields hport =>
      rw [hscheme, hfields]
      exact bind_eq_ok.mpr ⟨_, hport, rfl⟩
    | atSign hscheme hfields hat hauth hhost =>
      rw [hscheme, hfields]
      dsimp only
      rw [if_pos hat]
      exact bind_eq_ok.mpr ⟨_, hauth, by
        dsimp only
        rw [hhost]
        rfl⟩
    | last hscheme hfields hat hauth hhost hlast =>
      rw [hscheme, hfields]
      dsimp only
      rw [if_pos hat]
      refine bind_eq_ok.mpr ⟨_, hauth, ?_⟩
      dsimp only
      split
      · rename_i hparts
        exact absurd hparts (hhost _)
      · rw [hlast]
        rfl
    | colons hscheme hat hfields hread =>
      have hpassword : passwordFields line = none :=
        Option.eq_none_iff_forall_ne_some.mpr fun parts hparts => hat (passwordFields_at hparts)
      rw [hscheme, hpassword]
      dsimp only
      rw [if_neg hat]
      exact bind_eq_ok.mpr ⟨_, hfields, hread⟩

theorem credentialsLast_some (h : credentialsLast line = some p) :
    ∃ front back host port user pass, splitOnce '@' line = some (front, back) ∧
      splitHostPort front = .ok (host, port) ∧ splitOnce ':' back = some (user, pass) ∧
      user ≠ [] ∧ p = ⟨http, host, port, some user, some pass, .hostPortAtUserPass⟩ := by
  obtain ⟨⟨front, back⟩, hat, h⟩ := Option.bind_eq_some_iff.mp h
  obtain ⟨⟨host, port⟩, hhost, h⟩ := Option.bind_eq_some_iff.mp h
  obtain ⟨⟨user, pass⟩, hback, h⟩ := Option.bind_eq_some_iff.mp h
  dsimp only at h
  by_cases huser : user = []
  · rw [if_pos huser] at h
    cases h
  · rw [if_neg huser] at h
    cases h
    exact ⟨front, back, host, port, user, pass, hat, toOption_eq_some.mp hhost, hback, huser, rfl⟩

/-- What fields with colons between them are read as. -/
theorem parseFields_ok {fields : List Text} (h : parseFields fields = .ok p) :
    (fields.headD []).any isWhiteSpace = false ∧
      ((∃ host field port, fields = [host, field] ∧ parsePort field = .ok port ∧
        p = ⟨http, host, port, none, none, .hostPort⟩) ∨
      (∃ host field port user pass, fields = [host, field, user, pass] ∧
        parseUnsigned 65535 field = some (port + 1) ∧
        p = ⟨http, host, port + 1, some user, some pass, .hostPortUserPass⟩) ∨
      ∃ user pass host field port, fields = [user, pass, host, field] ∧
        parseUnsigned 65535 field = some port ∧ port ≠ 0 ∧ looksLikeHost host = true ∧
        p = ⟨http, host, port, some user, some pass, .userPassHostPort⟩) := by
  unfold parseFields at h
  by_cases hwhite : (fields.headD []).any isWhiteSpace = true
  · rw [if_pos hwhite] at h
    cases h
  · rw [if_neg hwhite] at h
    refine ⟨Bool.not_eq_true _ ▸ hwhite, ?_⟩
    split at h
    · rename_i host field
      obtain ⟨port, hport, h⟩ := bind_eq_ok.mp h
      cases h
      exact .inl ⟨host, field, port, rfl, hport, rfl⟩
    · rename_i a b c d
      split at h
      · rename_i port hport
        cases h
        exact .inr (.inl ⟨a, b, port, c, d, rfl, hport, rfl⟩)
      · rename_i tail htail hfirst
        split at h
        · rename_i hboth
          cases h
          exact .inr (.inr ⟨a, b, c, d, tail, rfl, htail, hboth.1, hboth.2, rfl⟩)
        · cases h
      · cases h
    · cases h
    · cases h

/-- A proxy was given as a URL exactly when its line has the mark of one. -/
theorem parseShape_url (h : parseShape line = .ok p) :
    p.shape = .url ↔ (splitOnceText schemeMark line).isSome := by
  cases parseShape_ok.mp h with
  | supplier hscheme hkind hfields hport => simp [hscheme]
  | url hscheme hkind hfields hauth hhost => simp [hscheme]
  | password hscheme hfields hport => simp [hscheme]
  | atSign hscheme hfields hat hauth hhost => simp [hscheme]
  | last hscheme hfields hat hauth hhost hlast =>
    obtain ⟨_, _, _, _, _, _, _, _, _, _, rfl⟩ := credentialsLast_some hlast
    simp [hscheme]
  | colons hscheme hat hfields hread =>
    obtain ⟨-, ⟨_, _, _, _, _, rfl⟩ | ⟨_, _, _, _, _, _, _, rfl⟩ |
      ⟨_, _, _, _, _, _, _, _, _, rfl⟩⟩ := parseFields_ok hread
    · simp [hscheme]
    · simp [hscheme]
    · simp [hscheme]

end Shapes

section Leading

/-- How a line is read. -/
inductive Stage where
  | strict
  | whole
  deriving DecidableEq, Repr

/-- What is read at a stage. -/
def Stage.read : Stage → Text → Except ParseError ParsedProxy
  | .strict => parseStrict
  | .whole => parseLine

/-- The line is read by the shape of this part of it, after a word for the kind of proxy or
without one. -/
inductive Leads : Stage → Text → Bool → Text → Prop
  | shape {line : Text} (hne : trimText line ≠ []) (hrow : isRow (trimText line) = false) :
    Leads .strict line false (trimText line)
  /-- The line is a row of a table. -/
  | row {line joined core : Text} {named : Bool} (hne : trimText line ≠ [])
    (hrow : isRow (trimText line) = true)
    (hjoined : readRow (trimText line) = .ok joined) (h : Leads .whole joined named core) :
    Leads .strict line named core
  /-- It is read as it stands. -/
  | strict {line core : Text} {named : Bool} (h : Leads .strict line named core) :
    Leads .whole line named core
  /-- It is refused as it stands, and has a word in front. -/
  | word {line head rest scheme core : Text} (hrefused : ∀ q, parseStrict line ≠ .ok q)
    (hsplit : splitOnceAny [' ', '\t', ':'] (trimText line) = some (head, rest))
    (hslashes : "//".toList.isPrefixOf rest = false) (hscheme : normaliseScheme head = .ok scheme)
    (h : Leads .whole rest false core) (hplain : splitOnceText schemeMark core = none) :
    Leads .whole line true core
  /-- It is refused so too, and something else sets its fields apart. -/
  | separated {line joined core : Text} {named : Bool}
    (hrefused : ∀ q, parseStrict line ≠ .ok q) (hword : wordReading line = none)
    (hjoined : rejoined line = some joined) (h : Leads .strict joined named core) :
    Leads .whole line named core

variable {line core : Text} {named : Bool}

/-- What a line is read as, by what its part is read as. -/
def Outcome (named : Bool) (q p : ParsedProxy) : Prop :=
  if named then
    ∃ head scheme, normaliseScheme head = .ok scheme ∧ p = { q with scheme, shape := .url }
  else p = q

theorem strict_leads {p : ParsedProxy} (hbelow : ∀ part, weight ',' part < weight ',' line →
    ∀ p, parseLine part = .ok p → ∃ named core q, Leads .whole part named core ∧
      parseShape core = .ok q ∧ Outcome named q p) (h : parseStrict line = .ok p) :
    ∃ named core q, Leads .strict line named core ∧ parseShape core = .ok q ∧
      Outcome named q p := by
  obtain ⟨hne, ⟨hrow, joined, hjoined, hread⟩ | ⟨hrow, hread⟩⟩ := parseStrict_ok.mp h
  · have hless := Nat.lt_of_lt_of_le (readRow_weight hrow hjoined) (weight_trimText ',' line)
    obtain ⟨named, core, q, hleads, hrest⟩ := hbelow joined hless p hread
    exact ⟨named, core, q, .row hne hrow hjoined hleads, hrest⟩
  · exact ⟨false, _, p, .shape hne hrow, hread, rfl⟩

/-- What is read is read of a part of the line. -/
theorem leads_of_ok (n : ℕ) (line : Text) (hn : weight ',' line < n) {p : ParsedProxy}
    (h : parseLine line = .ok p) : ∃ named core q, Leads .whole line named core ∧
      parseShape core = .ok q ∧ Outcome named q p := by
  induction n generalizing line p with
  | zero => omega
  | succ n ih =>
    have hbelow (part : Text) (hpart : weight ',' part < weight ',' line) (p : ParsedProxy)
        (hp : parseLine part = .ok p) := ih part (by omega) hp
    rcases parseLine_ok.mp h with hstrict | ⟨hrefused, hword | ⟨hword, joined, hjoined, hread⟩⟩
    · obtain ⟨named, core, q, hleads, hrest⟩ := strict_leads hbelow hstrict
      exact ⟨named, core, q, .strict hleads, hrest⟩
    · obtain ⟨head, rest, scheme, r, hsplit, hslashes, hscheme, hread, hshape, rfl⟩ :=
        wordReading_some.mp hword
      obtain ⟨named, core, q, hleads, hq, hout⟩ := hbelow rest (splitOnceAny_weight hsplit) r hread
      cases named with
      | true =>
        obtain ⟨_, _, -, rfl⟩ := hout
        exact absurd rfl hshape
      | false =>
        obtain rfl : r = q := hout
        refine ⟨true, core, r, .word hrefused hsplit hslashes hscheme hleads ?_, hq, head, scheme,
          hscheme, rfl⟩
        exact Option.eq_none_iff_forall_ne_some.mpr fun parts hparts =>
          hshape ((parseShape_url hq).mpr (by rw [hparts]; rfl))
    · have hbelow' (part : Text) (hpart : weight ',' part < weight ',' joined) (p : ParsedProxy)
          (hp : parseLine part = .ok p) :=
        hbelow part (Nat.lt_of_lt_of_le hpart (rejoined_weight hjoined)) p hp
      obtain ⟨named, core, q, hleads, hrest⟩ := strict_leads hbelow' hread
      exact ⟨named, core, q, .separated hrefused hword hjoined hleads, hrest⟩

end Leading

end FuryBrowser.ProxyList
