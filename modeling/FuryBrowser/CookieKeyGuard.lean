import FuryBrowser.LaunchPull

/-!
# The cookie-key guard

A browser deletes every cookie it cannot decrypt, so a directory whose cookies
were saved under another key must not be opened. The guard of `launch` reads
the marker before the pull; the bundle unpacked after it may carry another.

The guard holds for exactly the launches that take no such bundle and keep no
marker that cannot be read as text.
-/

namespace FuryBrowser.CookieKeyGuard

open PathTree AgentDisk BundleUnpack LaunchPull

/-- Whether a browser with this key may open a directory with this marker: none,
a blank one, or the key's own fingerprint. -/
def markerFits (lib : SealLibrary) (key : Key) : Option Bytes → Bool
  | none => true
  | some content =>
    match fromUtf8 content with
    | none => false
    | some text => trim text = "" || trim text = lib.keyFingerprint key

/-- Every browser the launch starts finds a marker that fits its cookie key. -/
def GuardHolds (agent : Agent) (request : LaunchRequest) (disk : Disk) : Prop :=
  ∀ r disk', launch agent request disk = .ok r disk' → ∀ key, r.osCryptKey = some key →
    markerFits agent.lib key (fileAt disk' (keyMarker agent request)) = true

/-- Whether the guard holds is decided by running the launch. -/
instance (agent : Agent) (request : LaunchRequest) (disk : Disk) :
    Decidable (GuardHolds agent request disk) :=
  match h : launch agent request disk with
  | .error _ _ => .isTrue fun r disk' hl => by simp [h] at hl
  | .ok r disk' =>
    decidable_of_iff
      (∀ key ∈ r.osCryptKey, markerFits agent.lib key (fileAt disk' (keyMarker agent request)))
      (by simp [GuardHolds, h])

/-- The launch unpacks a bundle whose marker is not blank and not the
fingerprint of the key it hands over. -/
def TakesForeignMarker (agent : Agent) (request : LaunchRequest) (ready : Disk) : Prop :=
  ∃ key inPlace entries content, osCryptKey agent request = some key ∧
    Unpacks agent request ready inPlace entries ∧
    bundleFile (dir agent request.id) entries (keyMarker agent request) = some content ∧
    markerFits agent.lib key (some content) = false

/-- The launch keeps a local marker that is not text: nothing newer replaces the
local copy, or what is unpacked over it has no marker. -/
def KeepsUnreadableMarker (agent : Agent) (request : LaunchRequest) (ready : Disk) : Prop :=
  ∃ key content, osCryptKey agent request = some key ∧
    (Keeps agent request ready ∨ ∃ entries, Unpacks agent request ready true entries ∧
      bundleFile (dir agent request.id) entries (keyMarker agent request) = none) ∧
    fileAt ready (keyMarker agent request) = some content ∧ fromUtf8 content = none

section Guard

variable {agent : Agent} {request : LaunchRequest} {disk disk' ready : Disk} {key : Key}

theorem keyMarker_inside : dir agent request.id <+: keyMarker agent request :=
  List.prefix_append _ _

theorem keyMarker_ne_devToolsPort : keyMarker agent request ≠ devToolsPort agent request := by
  simp [keyMarker, devToolsPort]

/-- The check before the pull lets through a marker that fits or cannot be read. -/
theorem checked_marker (hc : Checked agent request disk ready)
    (hk : osCryptKey agent request = some key) :
    markerFits agent.lib key (fileAt ready (keyMarker agent request)) = true ∨
      ∃ content, fileAt ready (keyMarker agent request) = some content ∧
        fromUtf8 content = none := by
  obtain ⟨_, -, -, hcheck⟩ := hc
  cases hf : fileAt ready (keyMarker agent request) with
  | none => exact .inl rfl
  | some content =>
    cases ht : fromUtf8 content with
    | none => exact .inr ⟨content, rfl, ht⟩
    | some text =>
      left
      have hread : readToString ready (keyMarker agent request) = some text := by
        simp [readToString, hf, ht]
      by_cases hbad : trim text ≠ "" ∧ trim text ≠ agent.lib.keyFingerprint key
      · simp [checkKeyMarker, hk, hread, hbad] at hcheck
      · simp only [markerFits, ht, Bool.or_eq_true, decide_eq_true_eq]
        exact (not_and_or.mp hbad).imp not_not.mp not_not.mp

/-- A checked launch that pulls starts the browser on what the pull leaves. -/
theorem launch_of_pull (hc : Checked agent request disk ready) {version : ℤ}
    (hp : pull agent request ready = .ok version disk') :
    launch agent request disk =
      .ok ⟨dir agent request.id, osCryptKey agent request, version⟩ disk' :=
  launch_ok.mpr ⟨ready, hc, hp, rfl, rfl⟩

/-- A bundle with a foreign marker reaches the browser: the guard fails. -/
theorem not_guard_of_foreign (hc : Checked agent request disk ready)
    (hf : TakesForeignMarker agent request ready) : ¬GuardHolds agent request disk := by
  obtain ⟨key, inPlace, entries, content, hk, hu, hb, hbad⟩ := hf
  obtain ⟨version, after, hp, hfiles⟩ := pull_of_unpacks hu
  intro hg
  have hfit := hg _ after (launch_of_pull hc hp) key hk
  rw [hfiles _ keyMarker_inside keyMarker_ne_devToolsPort, hb, Option.orElse_some, hbad] at hfit
  exact Bool.noConfusion hfit

/-- An unreadable local marker passes the check and stays: the guard fails. -/
theorem not_guard_of_unreadable (hc : Checked agent request disk ready)
    (hf : KeepsUnreadableMarker agent request ready) : ¬GuardHolds agent request disk := by
  obtain ⟨key, content, hk, hstays, hlocal, htext⟩ := hf
  have hbad : markerFits agent.lib key (some content) = false := by simp [markerFits, htext]
  intro hg
  rcases hstays with hkeep | ⟨entries, hu, hnone⟩
  · obtain ⟨version, after, hp, hfiles⟩ := pull_of_keeps hkeep
    have hfit := hg _ after (launch_of_pull hc hp) key hk
    rw [hfiles _ keyMarker_ne_devToolsPort, hlocal, hbad] at hfit
    exact Bool.noConfusion hfit
  · obtain ⟨version, after, hp, hfiles⟩ := pull_of_unpacks hu
    have hfit := hg _ after (launch_of_pull hc hp) key hk
    rw [hfiles _ keyMarker_inside keyMarker_ne_devToolsPort, hnone, Option.orElse_none,
      if_pos rfl, hlocal, hbad] at hfit
    exact Bool.noConfusion hfit

/-- The marker a checked launch keeps fits, unless it cannot be read. -/
theorem kept_marker_fits (hc : Checked agent request disk ready)
    (hk : osCryptKey agent request = some key)
    (hstays : Keeps agent request ready ∨ ∃ entries, Unpacks agent request ready true entries ∧
      bundleFile (dir agent request.id) entries (keyMarker agent request) = none)
    (hu : ¬KeepsUnreadableMarker agent request ready) :
    markerFits agent.lib key (fileAt ready (keyMarker agent request)) = true := by
  rcases checked_marker hc hk with hfit | ⟨content, hlocal, htext⟩
  · exact hfit
  · exact absurd ⟨key, content, hk, hstays, hlocal, htext⟩ hu

/-- The guard holds for a launch exactly when, past the local check, it takes no
bundle with a foreign marker and keeps no unreadable one. -/
theorem guardHolds_iff :
    GuardHolds agent request disk ↔ ∀ ready, Checked agent request disk ready →
      ¬TakesForeignMarker agent request ready ∧ ¬KeepsUnreadableMarker agent request ready := by
  constructor
  · intro hg ready hc
    exact ⟨fun hf => not_guard_of_foreign hc hf hg, fun hu => not_guard_of_unreadable hc hu hg⟩
  · intro h r disk' hl key hkey
    obtain ⟨ready, hc, hp, -, hr⟩ := launch_ok.mp hl
    have hk : osCryptKey agent request = some key := hr.symm.trans hkey
    obtain ⟨hforeign, hunreadable⟩ := h ready hc
    rcases pull_cases hp with hkeep | ⟨inPlace, entries, hu⟩
    · obtain ⟨_, after, hp', hfiles⟩ := pull_of_keeps hkeep
      cases hp.symm.trans hp'
      rw [hfiles _ keyMarker_ne_devToolsPort]
      exact kept_marker_fits hc hk (.inl hkeep) hunreadable
    · obtain ⟨_, after, hp', hfiles⟩ := pull_of_unpacks hu
      cases hp.symm.trans hp'
      rw [hfiles _ keyMarker_inside keyMarker_ne_devToolsPort]
      cases hb : bundleFile (dir agent request.id) entries (keyMarker agent request) with
      | some content =>
        by_contra hbad
        exact hforeign ⟨key, inPlace, entries, content, hk, hu, hb, by simpa using hbad⟩
      | none =>
        cases inPlace with
        | false => rfl
        | true => exact kept_marker_fits hc hk (.inr ⟨entries, hu, hb⟩) hunreadable

end Guard

/-- The guard fails on a first launch of the sample profile: the bundle's marker
names another key, and the browser is started on it. -/
theorem foreignMarker_opened : ¬GuardHolds sampleAgent (sampleRequest none "1") [] := by
  decide +kernel

end FuryBrowser.CookieKeyGuard
