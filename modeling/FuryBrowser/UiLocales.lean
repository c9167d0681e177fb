import FuryBrowser.TextCuts

/-!
# The locale of a profile's interface

A language tag is resolved to one of the locales that the browser has strings for. A tag is looked
up as it is written first, and resolved by its language and its region after that: two tags that
differ in their case may be resolved differently, and two entries of the table are no locales.
-/

namespace FuryBrowser.UiLocales

open AgentDisk TextBytes TextLines TextTrims

section Table

/-- `SHIPPED`, with the two entries that its generator left there. -/
def shipped : List Text :=
  [",\n  ", ",  \n  ", "af", "am", "ar", "bg", "bn", "ca", "cs", "da", "de", "el", "en-GB", "en-US",
    "es", "es-419", "et", "fa", "fi", "fil", "fr", "gu", "he", "hi", "hr", "hu", "id", "it", "ja",
    "kn", "ko", "lt", "lv", "ml", "mr", "ms", "nb", "nl", "pl", "pt-BR", "pt-PT", "ro", "ru", "sk",
    "sl", "sr", "sv", "sw", "ta", "te", "th", "tr", "uk", "ur", "vi", "zh-CN", "zh-TW"].map
      String.toList

/-- The search in the table. -/
def isShipped (tag : Text) : Bool := shipped.contains tag

/-- `shipped_ui_locales`. -/
def shippedUiLocales : List Text :=
  shipped.filter fun l => l ≠ [] && l.all fun c => c.isAlphanum || c = '-'

/-- `FALLBACK.ui`. -/
def fallback : Text := "en-US".toList

end Table

section Resolution

/-- What a language and a region are narrowed to. -/
def narrowed (lang region : Text) : Text :=
  if lang = "es".toList ∧ region ≠ "es".toList then "es-419".toList
  else if lang = "pt".toList ∧ region ≠ "br".toList then "pt-PT".toList
  else if lang = "zh".toList then
    if region = "hk".toList ∨ region = "mo".toList then "zh-TW".toList else "zh-CN".toList
  else if lang = "en".toList then
    if region = "lr".toList ∨ region = "ph".toList then "en-US".toList else "en-GB".toList
  else lang

/-- What a language is called here. -/
def aliased (lang : Text) : Option Text :=
  if lang = "en".toList then some "en-US".toList
  else if lang = "iw".toList then some "he".toList
  else if lang = "no".toList then some "nb".toList
  else if lang = "pt".toList then some "pt-BR".toList
  else if lang = "tl".toList then some "fil".toList
  else if lang = "zh".toList then some "zh-CN".toList
  else none

/-- The language and the region of a tag. -/
def langAndRegion (tag : Text) : Text × Option Text :=
  match splitOnce '-' tag with
  | some (l, r) => (lowerText l, some (lowerText r))
  | none => (lowerText tag, none)

/-- What a tag is resolved to when it is not in the table. -/
def resolved (tag : Text) : Text :=
  let (lang, region) := langAndRegion tag
  match (region.map (narrowed lang)).filter isShipped with
  | some locale => locale
  | none =>
    match (aliased lang).filter isShipped with
    | some locale => locale
    | none => if isShipped lang then lang else fallback

/-- A tag with dashes: `de_DE` is the same tag as `de-DE`. -/
def dashes (tag : Text) : Text := tag.map fun c => if c = '_' then '-' else c

/-- `ui_locale_for`. -/
def uiLocaleFor (tag : Option Text) : Text :=
  match (tag.map trimText).filter (· ≠ []) with
  | none => fallback
  | some tag =>
    let tag := dashes tag
    if isShipped tag then tag else resolved tag

end Resolution

section Tags

/-- A tag without its case and its separators. -/
def canonical (tag : Text) : Text := lowerText (dashes tag)

/-- Two tags differ in their case or their separators only. -/
def SameTag (tag other : Option Text) : Prop := tag.map canonical = other.map canonical

/-- What is expected of the locale of a tag. -/
structure WellChosen (tag : Option Text) : Prop where
  shipped : uiLocaleFor tag ∈ shippedUiLocales
  again : uiLocaleFor (some (uiLocaleFor tag)) = uiLocaleFor tag
  /-- The same tag in other letters has it too. -/
  same : ∀ other, SameTag tag other → uiLocaleFor other = uiLocaleFor tag

/-- The entries of the table that are no locales. -/
def strays : List Text := [",\n  ", ",  \n  "].map String.toList

/-- The tags that are resolved otherwise than as they are written. -/
def twoWays : List Text := ["en-us", "zh-tw"].map String.toList

/-- A tag that has one reading, and whose language is none of the stray entries. -/
def OneWay (tag : Text) : Prop :=
  canonical (trimText tag) ∉ twoWays ∧
    ∀ stray ∈ strays, (splitOnce '-' (canonical (trimText tag))).map Prod.fst ≠ some stray

theorem dash_toLower_iff (c : Char) : c.toLower = '-' ↔ c = '-' := by
  constructor
  · intro h
    have hnat := toNat_toLower c
    rw [h] at hnat
    by_cases hupper : 65 ≤ c.toNat ∧ c.toNat ≤ 90
    · rw [if_pos hupper] at hnat
      have : ('-' : Char).toNat = 45 := rfl
      omega
    · rw [if_neg hupper] at hnat
      exact (Char.toNat_inj.mp hnat).symm
  · rintro rfl
    rfl

theorem splitOnce_lowerText (tag : Text) :
    splitOnce '-' (lowerText tag) =
      (splitOnce '-' tag).map fun (l, r) => (lowerText l, lowerText r) := by
  induction tag with
  | nil => rfl
  | cons c rest ih =>
    rw [lowerText, List.map_cons, splitOnce, splitOnce]
    by_cases hc : c = '-'
    · rw [if_pos hc, if_pos ((dash_toLower_iff c).mpr hc)]
      rfl
    · rw [if_neg hc, if_neg ((dash_toLower_iff c).not.mpr hc)]
      rw [lowerText] at ih
      rw [ih]
      cases splitOnce '-' rest <;> rfl

theorem toLower_toLower (c : Char) : c.toLower.toLower = c.toLower := by
  apply Char.toNat_inj.mp
  have h := toNat_toLower c
  rw [toNat_toLower c.toLower]
  split_ifs at h ⊢ <;> omega

theorem lowerText_lowerText (text : Text) : lowerText (lowerText text) = lowerText text := by
  simp [lowerText, toLower_toLower]

/-- A tag is resolved without its case. -/
theorem resolved_lowerText (tag : Text) : resolved (lowerText tag) = resolved tag := by
  have hparts : langAndRegion (lowerText tag) = langAndRegion tag := by
    rw [langAndRegion, langAndRegion, splitOnce_lowerText]
    cases splitOnce '-' tag with
    | none => simp [lowerText_lowerText]
    | some parts => simp [lowerText_lowerText]
  rw [resolved, resolved, hparts]

theorem isWhiteSpace_toLower (c : Char) : isWhiteSpace c.toLower = isWhiteSpace c := by
  have h := toNat_toLower c
  rw [isWhiteSpace, isWhiteSpace, h]
  split_ifs with hupper
  · rw [Bool.eq_iff_iff]
    simp
    omega
  · rfl

theorem isWhiteSpace_dash (c : Char) :
    isWhiteSpace (if c = '_' then '-' else c) = isWhiteSpace c := by
  by_cases hc : c = '_'
  · rw [if_pos hc, hc]
    decide
  · rw [if_neg hc]

/-- A tag is trimmed as well after as before. -/
theorem canonical_trimText (tag : Text) : canonical (trimText tag) = trimText (canonical tag) := by
  rw [canonical, canonical, dashes, dashes, lowerText, lowerText, trimText_map isWhiteSpace_toLower,
    trimText_map isWhiteSpace_dash]

theorem lowerText_canonical (tag : Text) : lowerText (canonical tag) = canonical tag :=
  lowerText_lowerText (dashes tag)

theorem canonical_ne_nil {tag : Text} (h : tag ≠ []) : canonical tag ≠ [] := by
  simpa [canonical, lowerText, dashes] using h

/-- What is shipped is what it is resolved to, but for two locales and the stray entries. -/
theorem resolved_shipped {tag : Text} (h : isShipped tag = true) :
    tag ∈ strays ∨ lowerText tag ∈ twoWays ∨ resolved tag = tag := by
  have hall : ∀ tag ∈ shipped, tag ∈ strays ∨ lowerText tag ∈ twoWays ∨ resolved tag = tag := by
    decide
  exact hall tag (List.contains_iff_mem.mp h)

/-- A stray entry ends in white space, as no tag does. -/
theorem stray_not_trimmed {stray : Text} (h : stray ∈ strays) : trimText stray ≠ stray := by
  have hall : ∀ stray ∈ strays, trimText stray ≠ stray := by decide
  exact hall stray h

theorem trimText_canonical (tag : Text) :
    trimText (canonical (trimText tag)) = canonical (trimText tag) := by
  rw [canonical_trimText, trimText_trimText]

theorem trimText_dashes (tag : Text) :
    trimText (dashes (trimText tag)) = dashes (trimText tag) := by
  rw [dashes, trimText_map isWhiteSpace_dash, trimText_trimText]

/-- The locale of a tag that is not empty. -/
theorem uiLocaleFor_some {tag : Text} (h : trimText tag ≠ []) :
    uiLocaleFor (some tag) = if isShipped (dashes (trimText tag)) then dashes (trimText tag)
      else resolved (dashes (trimText tag)) := by
  have hsome : (Option.map trimText (some tag)).filter (· ≠ []) = some (trimText tag) :=
    Option.filter_eq_some_iff.mpr ⟨rfl, decide_eq_true h⟩
  rw [uiLocaleFor, hsome]

/-- A tag of one reading is resolved without its case. -/
theorem uiLocaleFor_canonical {tag : Text} (h : trimText tag ≠ [])
    (hone : canonical (trimText tag) ∉ twoWays) :
    uiLocaleFor (some tag) = resolved (canonical (trimText tag)) := by
  rw [uiLocaleFor_some h, canonical, resolved_lowerText]
  split
  · rename_i hshipped
    rcases resolved_shipped hshipped with hstray | htwo | heq
    · exact absurd (trimText_dashes tag) (stray_not_trimmed hstray)
    · exact absurd htwo hone
    · exact heq.symm
  · rfl

end Tags

section Choice

variable {tag key : Text}

/-- A locale of the table is shipped, or a stray entry. -/
theorem isShipped_cases (h : isShipped key = true) : key ∈ shippedUiLocales ∨ key ∈ strays := by
  have hall : ∀ key ∈ shipped, key ∈ shippedUiLocales ∨ key ∈ strays := by decide
  exact hall key (List.contains_iff_mem.mp h)

/-- Narrowing gives a stray entry for itself only. -/
theorem narrowed_stray {lang region : Text} (h : narrowed lang region ∈ strays) :
    lang ∈ strays := by
  unfold narrowed at h
  split_ifs at h
  · exact absurd h (by decide)
  · exact absurd h (by decide)
  · exact absurd h (by decide)
  · exact absurd h (by decide)
  · exact absurd h (by decide)
  · exact absurd h (by decide)
  · exact h

theorem aliased_shipped {lang locale : Text} (h : aliased lang = some locale) :
    locale ∈ shippedUiLocales := by
  unfold aliased at h
  split_ifs at h
  all_goals
    cases h
    decide

/-- The language of a tag is no stray entry, when what comes before its first dash is none. -/
theorem lang_not_stray (hlower : lowerText key = key) (htrim : trimText key = key)
    (h : ∀ stray ∈ strays, (splitOnce '-' key).map Prod.fst ≠ some stray) :
    (langAndRegion key).1 ∉ strays := by
  intro hin
  have hsplit := splitOnce_lowerText key
  rw [hlower] at hsplit
  unfold langAndRegion at hin
  cases hparts : splitOnce '-' key with
  | none =>
    rw [hparts, hlower] at hin
    exact stray_not_trimmed hin htrim
  | some parts =>
    rw [hparts] at hin hsplit
    have hfirst : parts.1 = lowerText parts.1 := congrArg Prod.fst (Option.some.inj hsplit)
    change lowerText parts.1 ∈ strays at hin
    rw [← hfirst] at hin
    exact h parts.1 hin (by rw [hparts, Option.map_some])

/-- A tag whose language is no stray entry is resolved to a shipped locale. -/
theorem resolved_mem (h : (langAndRegion key).1 ∉ strays) : resolved key ∈ shippedUiLocales := by
  unfold resolved
  generalize langAndRegion key = parts at h ⊢
  obtain ⟨lang, region⟩ := parts
  dsimp only at h ⊢
  split
  · rename_i locale hlocale
    obtain ⟨hmap, hshipped⟩ := Option.filter_eq_some_iff.mp hlocale
    obtain ⟨code, -, rfl⟩ := Option.map_eq_some_iff.mp hmap
    exact (isShipped_cases hshipped).resolve_right fun hstray => h (narrowed_stray hstray)
  · split
    · rename_i locale hlocale
      exact aliased_shipped (Option.filter_eq_some_iff.mp hlocale).1
    · split
      · rename_i hshipped
        exact (isShipped_cases hshipped).resolve_right h
      · decide

/-- What is shipped is its own locale. -/
theorem uiLocaleFor_shipped (h : key ∈ shippedUiLocales) : uiLocaleFor (some key) = key := by
  have hall : ∀ key ∈ shippedUiLocales, uiLocaleFor (some key) = key := by decide
  exact hall key h

theorem oneWay_wellChosen (h : OneWay tag) : WellChosen (some tag) := by
  obtain ⟨hone, hlang⟩ := h
  have hempty {other : Text} (hnil : trimText other = []) :
      uiLocaleFor (some other) = fallback := by
    have hnone : (Option.map trimText (some other)).filter (· ≠ []) = none := by
      simp [hnil]
    rw [uiLocaleFor, hnone]
  have hkey {other : Text} (hsame : SameTag (some tag) (some other)) :
      canonical (trimText other) = canonical (trimText tag) := by
    rw [canonical_trimText, canonical_trimText, Option.some.inj hsame]
  have hmem : uiLocaleFor (some tag) ∈ shippedUiLocales := by
    by_cases hnil : trimText tag = []
    · rw [hempty hnil]
      decide
    · rw [uiLocaleFor_canonical hnil hone]
      exact resolved_mem (lang_not_stray (lowerText_canonical _) (trimText_canonical tag) hlang)
  refine ⟨hmem, uiLocaleFor_shipped hmem, ?_⟩
  intro other hsame
  cases other with
  | none => cases hsame
  | some other =>
    have heq := hkey hsame
    by_cases hnil : trimText tag = []
    · have hother : trimText other = [] := by
        by_contra hne
        exact canonical_ne_nil hne (by rw [heq, hnil]; rfl)
      rw [hempty hnil, hempty hother]
    · have hother : trimText other ≠ [] := by
        intro hne
        exact canonical_ne_nil hnil (by rw [← heq, hne]; rfl)
      rw [uiLocaleFor_canonical hnil hone, uiLocaleFor_canonical hother (by rw [heq]; exact hone),
        heq]

/-- A tag may be written in other letters, with the white space it has around it. -/
theorem written_otherwise (tag : Text) {other : Text} (htrim : trimText other = other)
    (hne : other ≠ [])
    (hsame : canonical other = canonical (trimText tag)) :
    ∃ written, SameTag (some tag) (some written) ∧
      uiLocaleFor (some written) = uiLocaleFor (some other) := by
  obtain ⟨before, after, htag, hbefore, hafter, -⟩ := trimText_spec tag
  have hsolid : Solid other := by
    have h := trimText_solid other
    rwa [htrim] at h
  have hwritten := trimText_between before after hbefore hafter hsolid
  refine ⟨before ++ other ++ after, ?_, ?_⟩
  · have happend (a b : Text) : canonical (a ++ b) = canonical a ++ canonical b := by
      simp [canonical, lowerText, dashes]
    have hcanonical : canonical tag = canonical (before ++ other ++ after) := by
      rw [htag, happend, happend, happend, happend, hsame]
    exact congrArg some hcanonical
  · rw [uiLocaleFor_some (by rw [hwritten]; exact hne), uiLocaleFor_some (by rw [htrim]; exact hne),
      hwritten, htrim]

/-- A tag that is resolved otherwise than as it is written is not chosen well. -/
theorem twoWays_not_wellChosen (h : canonical (trimText tag) ∈ twoWays) :
    ¬WellChosen (some tag) := by
  intro hwell
  have hpairs : ∀ key ∈ twoWays, ∃ capital, trimText capital = capital ∧ capital ≠ [] ∧
      canonical capital = key ∧ trimText key = key ∧ key ≠ [] ∧ canonical key = key ∧
        uiLocaleFor (some capital) ≠ uiLocaleFor (some key) := by
    intro key hkey
    simp only [twoWays, List.map_cons, List.map_nil, List.mem_cons, List.not_mem_nil,
      or_false] at hkey
    rcases hkey with rfl | rfl
    · exact ⟨"en-US".toList, by decide⟩
    · exact ⟨"zh-TW".toList, by decide⟩
  obtain ⟨upper, htrim, hne, hupper, hkeytrim, hkeyne, hlower, hdiff⟩ := hpairs _ h
  obtain ⟨first, hfirst, hfirsteq⟩ := written_otherwise tag htrim hne hupper
  obtain ⟨second, hsecond, hsecondeq⟩ := written_otherwise tag hkeytrim hkeyne hlower
  apply hdiff
  rw [← hfirsteq, ← hsecondeq, hwell.same _ hfirst, hwell.same _ hsecond]

/-- A tag whose language is a stray entry is resolved to it. -/
theorem stray_not_wellChosen {stray : Text} (hstray : stray ∈ strays)
    (h : (splitOnce '-' (canonical (trimText tag))).map Prod.fst = some stray) :
    ¬WellChosen (some tag) := by
  intro hwell
  obtain ⟨⟨lang, region⟩, hsplit, hlang⟩ := Option.map_eq_some_iff.mp h
  obtain rfl : lang = stray := hlang
  have hne : trimText tag ≠ [] := by
    intro hnil
    rw [hnil] at hsplit
    cases hsplit
  have hone : canonical (trimText tag) ∉ twoWays := by
    intro htwo
    have hall : ∀ key ∈ twoWays, ∀ stray ∈ strays,
        (splitOnce '-' key).map Prod.fst ≠ some stray := by
      decide
    exact hall _ htwo lang hstray h
  have hstays : lowerText lang = lang ∧ isShipped lang = true ∧ lang ∉ shippedUiLocales ∧
      ∀ code, narrowed lang code = lang := by
    have hall : ∀ stray ∈ strays, lowerText stray = stray ∧ isShipped stray = true ∧
        stray ∉ shippedUiLocales ∧ stray ≠ "es".toList ∧ stray ≠ "pt".toList ∧
        stray ≠ "zh".toList ∧ stray ≠ "en".toList := by
      decide
    obtain ⟨hlower, hshipped, hout, hes, hpt, hzh, hen⟩ := hall lang hstray
    refine ⟨hlower, hshipped, hout, fun code => ?_⟩
    rw [narrowed, if_neg (fun hin => hes hin.1), if_neg (fun hin => hpt hin.1), if_neg hzh,
      if_neg hen]
  obtain ⟨hlower, hshipped, hout, hnarrowed⟩ := hstays
  have hanswer : uiLocaleFor (some tag) = lang := by
    have hfound : Option.filter isShipped (some lang) = some lang :=
      Option.filter_eq_some_iff.mpr ⟨rfl, hshipped⟩
    rw [uiLocaleFor_canonical hne hone, resolved, langAndRegion, hsplit]
    dsimp only
    rw [hlower, Option.map_some, hnarrowed, hfound]
  exact hout (hanswer ▸ hwell.shipped)

/-- A locale is chosen well for the tags that are resolved as they are written, and whose language
is no stray entry of the table. -/
theorem wellChosen_iff (tag : Option Text) : WellChosen tag ↔ ∀ text ∈ tag, OneWay text := by
  constructor
  · rintro hwell text rfl
    constructor
    · exact fun htwo => twoWays_not_wellChosen htwo hwell
    · exact fun stray hstray hsplit => stray_not_wellChosen hstray hsplit hwell
  · intro h
    cases tag with
    | some text => exact oneWay_wellChosen (h text rfl)
    | none =>
      refine ⟨by decide, by decide, ?_⟩
      intro other hsame
      cases other with
      | none => rfl
      | some other => cases hsame

/-- American English in small letters is resolved to British English. -/
theorem small_letters_differ : ¬∀ tag, WellChosen tag := by
  intro hall
  have hsmall : uiLocaleFor (some "en-us".toList) = "en-GB".toList := by decide
  have hcapital : uiLocaleFor (some "en-US".toList) = "en-US".toList := by decide
  have hsame := (hall (some "en-us".toList)).same (some "en-US".toList) (by rw [SameTag]; decide)
  rw [hsmall, hcapital] at hsame
  exact absurd hsame (by decide)

end Choice

end FuryBrowser.UiLocales
